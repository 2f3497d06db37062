import Mathlib.Data.List.Induction
import Mathlib.Logic.Function.Iterate
import IntervalDump.Collector
/-!
# What one step does to a collector

Every later fact about collectors comes from the lemmas of this file, which say what a step does to
the entries of the table of series.

* **A new collector** has an empty series for every requested attribute (`getElem?_series_fresh`).
* **Recording one attribute** either is refused and changes nothing, or records its number in the
  series that has its local name (`recordAttribute_of_refuses`, `recordAttribute_of_not_refuses`).
* **Recording the attributes of an element** records the numbers of those before the first refused
  one, and fails exactly if there is one (`each_recordAttribute`). Of several numbers under one name
  the last one stays (`recordAll_eq`).
* **Joining** replaces the series of each name by its aggregate, once for each time the name is
  listed, and touches no other series (`each_joinSeries`).
-/

namespace IntervalDump

/-! ## Numbers recorded one after the other -/

/-- The numbers that attributes with this local name have as their values, in order. -/
def Attribute.numbers (name : String) (attributes : List Attribute) : List Float :=
  attributes.filterMap fun a =>
    if a.name.isNamed name then Collector.readNumber? a.value else none

/-- The numbers of several attributes are those of the first and those of the others. -/
theorem Attribute.numbers_cons (name : String) (a : Attribute) (attributes : List Attribute) :
    numbers name (a :: attributes) = numbers name [a] ++ numbers name attributes := by
  rw [numbers, ← List.singleton_append, List.filterMap_append]
  rfl

/-- Attributes of other names give no numbers. -/
theorem Attribute.numbers_eq_nil_of_forall_ne {name : String} {attributes : List Attribute}
    (h : ∀ a ∈ attributes, a.name.localName ≠ name) : numbers name attributes = [] := by
  rw [numbers, List.filterMap_eq_nil_iff]
  intro a ha
  simp [Name.isNamed, h a ha]

namespace Series

/-- Records several values of an element, one after the other. -/
def recordAll (id : String) (values : List Float) (series : Series) : Series :=
  values.foldl (fun series value => series.record id value) series

/-- Without values, nothing is recorded. -/
@[simp] theorem recordAll_nil (id : String) : recordAll id [] = fun series => series := rfl

/-- One value is recorded as it is. -/
@[simp] theorem recordAll_singleton (id : String) (value : Float) (series : Series) :
    series.recordAll id [value] = series.record id value := rfl

/-- Values may be recorded in two parts. -/
theorem recordAll_append (id : String) (first second : List Float) (series : Series) :
    series.recordAll id (first ++ second) = (series.recordAll id first).recordAll id second :=
  List.foldl_append

/-- Recording adds no snapshot. -/
@[simp] theorem length_recordAll (id : String) (values : List Float) (series : Series) :
    (series.recordAll id values).length = series.length := by
  induction values generalizing series with
  | nil => rfl
  | cons value values ih =>
    rw [← List.singleton_append, recordAll_append, ih, recordAll_singleton, length_record]

/-- Recording does not make an empty series less empty. -/
@[simp] theorem isEmpty_recordAll (id : String) (values : List Float) (series : Series) :
    (series.recordAll id values).isEmpty = series.isEmpty := by
  rw [Bool.eq_iff_iff, isEmpty_eq_true, isEmpty_eq_true, length_recordAll]

/-- A value recorded later takes the place of the one before. -/
theorem record_record (id : String) (before after : Float) (series : Series) :
    (series.record id before).record id after = series.record id after := by
  obtain ⟨latestFirst⟩ := series
  cases latestFirst with
  | nil => rfl
  | cons latest earlier =>
    have hinsert : (latest.insert id before).insert id after = latest.insert id after := by
      apply Std.ExtTreeMap.ext_getElem?
      intro k
      simp only [Std.ExtTreeMap.getElem?_insert]
      split <;> rfl
    simp only [record, hinsert]

/-- Of several values only the last one stays. -/
theorem recordAll_eq (id : String) (values : List Float) (series : Series) :
    series.recordAll id values =
      match values.getLast? with
      | some value => series.record id value
      | none => series := by
  induction values using List.reverseRecOn with
  | nil => rfl
  | append_singleton values value ih =>
    rw [recordAll_append, ih, recordAll_singleton, List.getLast?_concat]
    split
    · exact record_record ..
    · rfl

/-- The series of one snapshot that a series is joined into. -/
def joined (how : Reduction) (series : Series) : Series :=
  .single (aggregate how series.toList)

/-- A joined series has one snapshot. -/
@[simp] theorem length_joined (how : Reduction) (series : Series) :
    (series.joined how).length = 1 := rfl

/-- A series that was joined at all has one snapshot. -/
theorem length_iterate_joined (how : Reduction) (series : Series) (n : Nat) :
    ((joined how)^[n] series).length = if n = 0 then series.length else 1 := by
  cases n with
  | zero => rfl
  | succ n => rw [Function.iterate_succ_apply', length_joined, if_neg n.succ_ne_zero]

end Series

namespace Collector

/-! ## A new collector -/

/-- A new collector has an empty series for each attribute that was asked for. -/
theorem getElem?_series_fresh (config : Config) (name : String) :
    (fresh config).series[name]? =
      if name ∈ config.attributes then some Series.empty else none := by
  have hkeys : (config.attributes.toList.map fun name => (name, Series.empty)).map Prod.fst =
      config.attributes.toList := by
    simp [Function.comp_def]
  unfold fresh
  split
  · next h =>
    refine Std.ExtTreeMap.getElem?_ofList_of_mem (k := name) Std.ReflCmp.compare_self ?_ ?_
    · have hdistinct := Std.ExtTreeSet.distinct_toList (t := config.attributes)
      exact List.pairwise_map.2 hdistinct
    · exact List.mem_map.2 ⟨name, Std.ExtTreeSet.mem_toList.2 h, rfl⟩
  · next h =>
    apply Std.ExtTreeMap.getElem?_ofList_of_contains_eq_false
    rw [hkeys, Std.ExtTreeSet.contains_toList, ← Bool.not_eq_true]
    exact h

/-- A collector for a valid configuration is the new one. -/
theorem eq_fresh_of_ofConfig {config : Config} {c : Collector} (h : ofConfig config = .ok c) :
    config.fault? = none ∧ c = fresh config := by
  unfold ofConfig at h
  split at h
  · contradiction
  · next hfault => exact ⟨hfault, (Except.ok.inj h).symm⟩

/-! ## Opening an interval -/

/-- No interval is opened behind a join. -/
theorem openInterval_of_reduced {c : Collector} (h : c.phase = .reduced) (begin : Float) :
    openInterval begin c = .fail (.malformed .alreadyJoined) c := by
  rw [openInterval, if_pos h]

/-- Before a join, an interval is opened whatever its begin is. -/
theorem openInterval_of_not_reduced {c : Collector} (h : c.phase ≠ .reduced) (begin : Float) :
    (openInterval begin c).error? = none ∧
      (openInterval begin c).state =
        { c with
          phase := .parsing
          begins := c.begins.push begin
          series := c.series.map fun _ series => series.extend } := by
  rw [openInterval, if_neg h]
  exact ⟨rfl, rfl⟩

/-- An interval is opened only if no series was joined. -/
theorem phase_ne_of_openInterval {begin : Float} {c : Collector}
    (hok : (openInterval begin c).error? = none) : c.phase ≠ .reduced := by
  intro h
  rw [openInterval_of_reduced h] at hok
  simp at hok

/-! ## Recording the attributes of an element -/

/-- Whether an attribute cannot be recorded: it is requested, but no interval was opened or its
value is not a number. -/
def refuses (c : Collector) (a : Attribute) : Bool :=
  match c.series[a.name.localName]? with
  | none => false
  | some series => series.isEmpty || (readNumber? a.value).isNone

/-- A value that is refused leaves the collector as it was. -/
theorem recordAttribute_of_refuses {c : Collector} {a : Attribute} (h : c.refuses a = true)
    (kind : Kind) (id : String) :
    ∃ cause, recordAttribute kind id a c = .fail (.malformed cause) c := by
  unfold refuses at h
  unfold recordAttribute
  split at h
  · contradiction
  · next series hseries =>
    simp only [hseries]
    split
    · exact ⟨_, rfl⟩
    · next hempty =>
      have hnumber : readNumber? a.value = none := by simpa [hempty] using h
      exact ⟨_, by rw [hnumber]⟩

/-- An attribute that is not refused reaches the series that has its local name, and no other. -/
theorem recordAttribute_of_not_refuses {c : Collector} {a : Attribute} (h : c.refuses a = false)
    (kind : Kind) (id : String) :
    ∃ series : Std.ExtTreeMap String Series,
      recordAttribute kind id a c = .ok { c with series } ∧
        ∀ name : String, series[name]? =
          c.series[name]?.map (Series.recordAll id (Attribute.numbers name [a])) := by
  unfold refuses at h
  unfold recordAttribute
  rcases hseries : c.series[a.name.localName]? with _ | series
  · refine ⟨c.series, by simp only [hseries], ?_⟩
    intro name
    by_cases hname : a.name.localName = name
    · rw [← hname, hseries, Option.map_none]
    · rw [Attribute.numbers_eq_nil_of_forall_ne (by simpa using hname)]
      simp
  · simp only [hseries, Bool.or_eq_false_iff, Option.isNone_eq_false_iff] at h
    obtain ⟨value, hvalue⟩ := Option.isSome_iff_exists.1 h.2
    refine ⟨c.series.insert a.name.localName (series.record id value), ?_, ?_⟩
    · simp only [hseries, h.1, hvalue, Bool.false_eq_true, if_false]
    · intro name
      by_cases hname : a.name.localName = name
      · rw [← hname, hseries, Std.ExtTreeMap.getElem?_insert_self]
        simp [Attribute.numbers, Name.isNamed, hvalue]
      · rw [Attribute.numbers_eq_nil_of_forall_ne (by simpa using hname),
          Std.ExtTreeMap.getElem?_insert, if_neg (by simpa using hname)]
        simp

/-- Whether an attribute is refused depends on which series there are and which of them are
empty. -/
theorem refuses_congr {c : Collector} {series : Std.ExtTreeMap String Series} {id : String}
    {values : String → List Float}
    (h : ∀ name : String, series[name]? = c.series[name]?.map (Series.recordAll id (values name))) :
    ({ c with series } : Collector).refuses = c.refuses := by
  funext a
  unfold refuses
  simp only [h]
  cases c.series[a.name.localName]? with
  | none => rfl
  | some s => simp only [Option.map_some, Series.isEmpty_recordAll]

/-- The attributes before the first refused one are recorded, each in the series that has its local
name; and it is the first refused one, if there is one, that makes the step fail. -/
theorem each_recordAttribute (kind : Kind) (id : String) (attributes : List Attribute)
    (c : Collector) :
    let recorded := attributes.takeWhile fun a => !c.refuses a
    ∃ series : Std.ExtTreeMap String Series,
      (Outcome.each (recordAttribute kind id) attributes c).state = { c with series } ∧
        (∀ name : String, series[name]? =
          c.series[name]?.map (Series.recordAll id (Attribute.numbers name recorded))) ∧
        ((Outcome.each (recordAttribute kind id) attributes c).error? = none ↔
          ∀ a ∈ attributes, c.refuses a = false) := by
  -- the attributes are recorded one by one up to the first that is refused
  induction attributes generalizing c with
  | nil => exact ⟨c.series, rfl, by simp [Attribute.numbers], by simp⟩
  | cons a attributes ih =>
    rw [Outcome.each_cons]
    cases ha : c.refuses a with
    | true =>
      obtain ⟨cause, hfail⟩ := recordAttribute_of_refuses ha kind id
      rw [hfail, Outcome.andThen_fail]
      refine ⟨c.series, rfl, ?_, by simp [ha]⟩
      intro name
      simp [ha, Attribute.numbers]
    | false =>
      obtain ⟨first, hfirst, hlookup⟩ := recordAttribute_of_not_refuses ha kind id
      have hrefuses := refuses_congr hlookup
      obtain ⟨series, hstate, hseries, herror⟩ := ih { c with series := first }
      rw [hrefuses] at hseries herror
      rw [hfirst, Outcome.andThen_ok]
      refine ⟨series, hstate, ?_, by simpa [ha] using herror⟩
      intro name
      rw [List.takeWhile_cons, if_pos (by simp [ha]), Attribute.numbers_cons, hseries]
      show (first[name]?).map _ = _
      rw [hlookup, Option.map_map]
      congr 1
      funext s
      exact (Series.recordAll_append ..).symm

/-- Recording an element touches nothing but the entries of the table, and these keep their
lengths. -/
theorem recordElement_state (kind : Kind) (id : String) (attributes : List Attribute)
    (c : Collector) :
    ∃ series : Std.ExtTreeMap String Series,
      (recordElement kind id attributes c).state = { c with series } ∧
        ∀ name : String, series[name]?.map Series.length = c.series[name]?.map Series.length := by
  unfold recordElement
  split
  · exact ⟨c.series, rfl, fun _ => rfl⟩
  · split
    · exact ⟨c.series, rfl, fun _ => rfl⟩
    · obtain ⟨series, hstate, hseries, -⟩ := each_recordAttribute kind id attributes c
      refine ⟨series, ?_, ?_⟩
      · rcases he : (Outcome.each (recordAttribute kind id) attributes c).error? with _ | error
        · rw [Outcome.state_andThen_of_ok he, Outcome.state_tell, hstate]
        · rw [Outcome.andThen_of_error he, hstate]
      · intro name
        rw [hseries, Option.map_map]
        congr 1
        funext s
        exact Series.length_recordAll ..

/-! ## Joining -/

/-- To join one series leaves all others. -/
theorem joinSeries_eq (how : Reduction) (name : String) (c : Collector) :
    ∃ series : Std.ExtTreeMap String Series,
      (joinSeries how name c).state = { c with series } ∧
        (joinSeries how name c).error? = none ∧
        ∀ other : String, series[other]? =
          c.series[other]?.map (fun s => if other = name then s.joined how else s) := by
  unfold joinSeries
  rcases hseries : c.series[name]? with _ | s
  · refine ⟨c.series, rfl, rfl, ?_⟩
    intro other
    by_cases hother : other = name
    · rw [hother, hseries, Option.map_none]
    · simp [hother]
  · refine ⟨c.series.insert name (s.joined how), rfl, rfl, ?_⟩
    intro other
    rw [Std.ExtTreeMap.getElem?_insert]
    by_cases hother : other = name
    · simp [hother, hseries]
    · rw [if_neg (by simpa using Ne.symm hother)]
      simp [hother]

/-- Joining the series of a list of names never fails, and takes each aggregate as often as its name
is listed. -/
theorem each_joinSeries (how : Reduction) (names : List String) (c : Collector) :
    ∃ series : Std.ExtTreeMap String Series,
      (Outcome.each (joinSeries how) names c).state = { c with series } ∧
        (Outcome.each (joinSeries how) names c).error? = none ∧
        ∀ other : String, series[other]? =
          c.series[other]?.map (Series.joined how)^[names.count other] := by
  induction names generalizing c with
  | nil => exact ⟨c.series, rfl, rfl, by simp⟩
  | cons name names ih =>
    obtain ⟨first, hfirst, hok, hlookup⟩ := joinSeries_eq how name c
    obtain ⟨series, hstate, herror, hseries⟩ := ih { c with series := first }
    rw [Outcome.each_cons, Outcome.state_andThen_of_ok hok, Outcome.error?_andThen_of_ok hok,
      hfirst]
    refine ⟨series, hstate, herror, ?_⟩
    intro other
    rw [hseries]
    show (first[other]?).map _ = _
    rw [hlookup, Option.map_map]
    congr 1
    funext s
    by_cases hother : other = name
    · simp [hother]
    · simp [hother, Ne.symm hother]

/-! ## Starts of elements -/

section Start

variable {tag : Name} (attributes : List Attribute) {c : Collector}

/-- An element with the tag of an interval begins one. -/
theorem startElement_of_isNamed (htag : tag.isNamed c.config.intervalTag = true) :
    startElement tag attributes c = startInterval attributes c := by
  rw [startElement, if_pos htag]

/-- Any other element of a known kind is measured. -/
theorem startElement_of_kind {kind : Kind} (htag : tag.isNamed c.config.intervalTag = false)
    (hkind : Kind.ofName? tag.localName = some kind) :
    startElement tag attributes c = startMeasured kind attributes c := by
  simp only [startElement, htag, hkind, Bool.false_eq_true, if_false]

/-- An element without a requested attribute needs neither an id nor an interval. -/
theorem startMeasured_of_quiet
    (hquiet : (attributes.any fun a => c.isRequested a.name.localName) = false) (kind : Kind) :
    startMeasured kind attributes c = .ok c := by
  rw [startMeasured, hquiet]
  rfl

/-- The start of an edge or lane touches nothing but the entries of the table. -/
theorem startMeasured_state (kind : Kind) (c : Collector) :
    ∃ series : Std.ExtTreeMap String Series,
      (startMeasured kind attributes c).state = { c with series } := by
  unfold startMeasured
  split
  · split
    · exact ⟨c.series, rfl⟩
    · next id _ =>
      obtain ⟨series, hstate, -⟩ := recordElement_state kind id attributes c
      exact ⟨series, hstate⟩
  · exact ⟨c.series, rfl⟩

/-- An element that neither starts an interval nor is of a kind is of no interest. -/
theorem startElement_of_other (htag : tag.isNamed c.config.intervalTag = false)
    (hkind : Kind.ofName? tag.localName = none) : startElement tag attributes c = .ok c := by
  simp only [startElement, htag, hkind, Bool.false_eq_true, if_false]

end Start

end Collector

end IntervalDump
