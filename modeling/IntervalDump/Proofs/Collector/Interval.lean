import Mathlib.Data.List.TakeWhile
import IntervalDump.Collector
/-!
# The intervals of a dump and what is reported in them

A dump is a list of events, and this file says what such a list means without any collector.

* **Intervals** (`Interval.all`): every start of an interval element opens one, which holds the
  events up to the next such start. Whether intervals are closed or nested does not matter.
* **Reports** (`Config.report?`): the start of an element of a selected kind reports, under the
  first id it carries, the last value it carries of an attribute.
* **Snapshots** (`Config.Tells`): a snapshot tells what events report of an attribute if its ids are
  those with a report, each with the number in the last report.

Events are appended one at a time to a list; `Interval.reverse_all_concat`, `Config.Tells.quiet` and
`Config.Tells.report` say what becomes of the intervals and of a snapshot.
-/

namespace IntervalDump

/-- The value of the last attribute with this local name. -/
def Attribute.findLast? (attributes : List Attribute) (localName : String) : Option String :=
  find? attributes.reverse localName

/-- The attributes of an event that starts an interval. -/
def Event.interval? (tag : String) : Event → Option (List Attribute)
  | .startElement name attributes => if name.isNamed tag then some attributes else none
  | _ => none

/-- Only a start tag with the name of an interval begins one. -/
theorem Event.exists_of_interval? {tag : String} {e : Event} {attributes : List Attribute}
    (h : e.interval? tag = some attributes) :
    ∃ name, e = .startElement name attributes ∧ name.isNamed tag = true := by
  cases e with
  | startDocument => cases h
  | endDocument => cases h
  | endElement name => cases h
  | startElement name attributes' =>
    simp only [interval?, Option.ite_none_right_eq_some, Option.some.injEq] at h
    obtain ⟨htag, rfl⟩ := h
    exact ⟨name, rfl, htag⟩

/-- Whether an event ends an interval element. -/
def Event.endsInterval (tag : String) : Event → Bool
  | .endElement name => name.isNamed tag
  | _ => false

/-! ## Intervals -/

/-- An interval of a dump: the attributes of its start, and the events behind its start. -/
structure Interval where
  attributes : List Attribute
  events : List Event

namespace Interval

/-- The intervals that are started in a list of events. Each one ends where the next one starts. -/
def all (tag : String) : List Event → List Interval
  | [] => []
  | e :: events =>
    match e.interval? tag with
    | some attributes =>
      ⟨attributes, events.takeWhile fun e => (e.interval? tag).isNone⟩ :: all tag events
    | none => all tag events

/-- The interval with one more event. -/
def add (e : Event) (interval : Interval) : Interval :=
  { interval with events := interval.events ++ [e] }

/-- There is one interval for each start of an interval element. -/
theorem map_attributes_all (tag : String) (events : List Event) :
    (all tag events).map attributes = events.filterMap (Event.interval? tag) := by
  induction events with
  | nil => rfl
  | cons e events ih =>
    rw [all, List.filterMap_cons]
    cases e.interval? tag with
    | none => exact ih
    | some attributes => simp [ih]

/-- Without a tag of an interval there are no intervals. -/
theorem all_eq_nil_iff {tag : String} {events : List Event} :
    all tag events = [] ↔ ∀ e ∈ events, (e.interval? tag).isNone = true := by
  rw [← List.map_eq_nil_iff (f := attributes), map_attributes_all, List.filterMap_eq_nil_iff]
  simp

/-- An event that begins no interval belongs to what comes before the first one, if it is not there
yet. -/
theorem takeWhile_concat {tag : String} {events : List Event} {e : Event}
    (he : e.interval? tag = none) :
    ((events ++ [e]).takeWhile fun e => (e.interval? tag).isNone) =
      (events.takeWhile fun e => (e.interval? tag).isNone) ++
        (if all tag events = [] then [e] else []) := by
  split
  · next h =>
    have hquiet := all_eq_nil_iff.1 h
    rw [List.takeWhile_append_of_pos hquiet, List.takeWhile_eq_self_iff.2 hquiet]
    simp [he]
  · next h =>
    rw [all_eq_nil_iff, ← List.all_eq_true, Bool.not_eq_true] at h
    induction events with
    | nil => simp at h
    | cons first events ih =>
      rw [List.cons_append, List.takeWhile_cons, List.takeWhile_cons]
      split
      · next hfirst =>
        rw [List.cons_append, ih (by simpa [hfirst] using h)]
      · rfl

/-- One more event either starts an interval or belongs to the last one. -/
theorem reverse_all_concat (tag : String) (events : List Event) (e : Event) :
    (all tag (events ++ [e])).reverse =
      match e.interval? tag, (all tag events).reverse with
      | some attributes, intervals => ⟨attributes, []⟩ :: intervals
      | none, [] => []
      | none, latest :: earlier => latest.add e :: earlier := by
  -- an event goes into the interval that was begun last, or begins one; either way only the last
  -- entry is touched
  rcases he : e.interval? tag with _ | attributes
  · induction events with
    | nil => simp [all, he]
    | cons first events ih =>
      rw [List.cons_append, all, all]
      cases first.interval? tag with
      | none => exact ih
      | some attributes =>
        simp only [List.reverse_cons, ih, takeWhile_concat he]
        cases h : (all tag events).reverse with
        | nil => simp [List.reverse_eq_nil_iff.1 h, add]
        | cons latest earlier =>
          -- the latest interval is a later one, so the first one is over and does not get the event
          have hne : all tag events ≠ [] := by
            intro hnil
            simp [hnil] at h
          simp [hne]
  · induction events with
    | nil => simp [all, he]
    | cons first events ih =>
      rw [List.cons_append, all, all]
      cases first.interval? tag with
      | none => exact ih
      | some attributes' =>
        have htake : ((events ++ [e]).takeWhile fun e => (e.interval? tag).isNone) =
            events.takeWhile fun e => (e.interval? tag).isNone := by
          rw [List.takeWhile_append]
          split
          · next hlength => simp [he, (List.takeWhile_prefix _).eq_of_length hlength]
          · rfl
        simp only [htake, List.reverse_cons, ih, List.cons_append]

end Interval

/-! ## Reports -/

namespace Config

/-- What an event reports of an attribute: the id of the element, and the value as it is written.
Only the start of an element of a selected kind reports something. -/
def report? (config : Config) (name : String) : Event → Option (String × String)
  | .startElement tag attributes =>
    match Kind.ofName? tag.localName, Attribute.find? attributes config.idAttribute with
    | some kind, some id =>
      if config.kinds.contains kind then
        (Attribute.findLast? attributes name).map fun raw => (id, raw)
      else none
    | _, _ => none
  | _ => none

/-- An interval with these attributes begins at `begin`. -/
def Begins (config : Config) (attributes : List Attribute) (begin : Float) : Prop :=
  ∃ raw, Attribute.find? attributes config.beginAttribute = some raw ∧
    Collector.readNumber? raw = some begin

/-- An interval begins at one number at most. -/
theorem Begins.unique {config : Config} {attributes : List Attribute} {begin begin' : Float}
    (h : config.Begins attributes begin) (h' : config.Begins attributes begin') :
    begin = begin' := by
  obtain ⟨raw, hfind, hraw⟩ := h
  obtain ⟨raw', hfind', hraw'⟩ := h'
  obtain rfl := Option.some.inj (hfind.symm.trans hfind')
  exact Option.some.inj (hraw.symm.trans hraw')

/-- A snapshot holds what events report of an attribute. -/
structure Tells (config : Config) (name : String) (events : List Event) (snapshot : Snapshot) :
    Prop where
  /-- The ids are those of the elements that report the attribute. -/
  mem_iff : ∀ id, id ∈ snapshot ↔ ∃ e ∈ events, ∃ raw, config.report? name e = some (id, raw)
  /-- The value is the number in the last report of the element. -/
  last : ∀ id value, snapshot[id]? = some value →
    ∃ earlier e later raw, events = earlier ++ e :: later ∧
      config.report? name e = some (id, raw) ∧
      (∀ e' ∈ later, ∀ raw', config.report? name e' ≠ some (id, raw')) ∧
      Collector.readNumber? raw = some value

namespace Tells

variable {config : Config} {name : String} {events : List Event} {e : Event} {snapshot : Snapshot}

/-- No events tell nothing. -/
theorem empty : config.Tells name [] ∅ where
  mem_iff := by simp
  last := by simp

/-- An event that reports nothing changes nothing. -/
theorem quiet (h : config.Tells name events snapshot) (he : config.report? name e = none) :
    config.Tells name (events ++ [e]) snapshot where
  mem_iff id := by
    rw [h.mem_iff]
    simp [he]
  last id value hvalue := by
    obtain ⟨earlier, e', later, raw, rfl, he', hlater, hraw⟩ := h.last id value hvalue
    refine ⟨earlier, e', later ++ [e], raw, by simp, he', ?_, hraw⟩
    intro e'' hmem raw'
    rcases List.mem_append.1 hmem with hmem | hmem
    · exact hlater e'' hmem raw'
    · rw [List.mem_singleton.1 hmem, he]
      simp

/-- The number in a report takes the place of what the snapshot held for the element. -/
theorem report (h : config.Tells name events snapshot) {id raw : String} {value : Float}
    (he : config.report? name e = some (id, raw)) (hraw : Collector.readNumber? raw = some value) :
    config.Tells name (events ++ [e]) (snapshot.insert id value) where
  mem_iff id' := by
    rw [Std.ExtTreeMap.mem_insert, h.mem_iff]
    constructor
    · rintro (hid | ⟨e', hmem, raw', he'⟩)
      · exact ⟨e, by simp, raw, by rw [he, Std.LawfulEqOrd.compare_eq_iff_eq.1 hid]⟩
      · exact ⟨e', by simp [hmem], raw', he'⟩
    · rintro ⟨e', hmem, raw', he'⟩
      rcases List.mem_append.1 hmem with hmem | hmem
      · exact Or.inr ⟨e', hmem, raw', he'⟩
      · rw [List.mem_singleton.1 hmem, he] at he'
        have hid : id = id' := congrArg Prod.fst (Option.some.inj he')
        exact Or.inl (Std.LawfulEqOrd.compare_eq_iff_eq.2 hid)
  last id' value' hvalue' := by
    rw [Std.ExtTreeMap.getElem?_insert] at hvalue'
    split at hvalue'
    · next hid =>
      obtain rfl := Std.LawfulEqOrd.compare_eq_iff_eq.1 hid
      obtain rfl := Option.some.inj hvalue'
      exact ⟨events, e, [], raw, rfl, he, by simp, hraw⟩
    · next hid =>
      obtain ⟨earlier, e', later, raw', rfl, he', hlater, hraw'⟩ := h.last id' value' hvalue'
      refine ⟨earlier, e', later ++ [e], raw', by simp, he', ?_, hraw'⟩
      intro e'' hmem raw'' hreport
      rcases List.mem_append.1 hmem with hmem | hmem
      · exact hlater e'' hmem raw'' hreport
      · rw [List.mem_singleton.1 hmem, he] at hreport
        have hsame : id = id' := congrArg Prod.fst (Option.some.inj hreport)
        exact hid (Std.LawfulEqOrd.compare_eq_iff_eq.2 hsame)

end Tells

end Config

end IntervalDump
