import IntervalDump.Proofs.Collector.Replay
/-!
# Which dumps are refused

A dump is refused at the first of its events that must not stand where it stands. What the error
says can be read off that event and the question whether an interval was started before it.

* **One event** (`Config.Refuses`, `Unjoined.error?_receive_iff`): the causes for which an event is
  refused by a collector, whatever the selected kinds.
* **A dump** (`Config.Offends`, `replay_refused`): if all kinds are selected, a dump is refused if
  and only if one of its events offends, and then at the first one.
-/

namespace IntervalDump

namespace Config

open Collector (Malformed readNumber?)

/-- In the order of the attributes, `a` is the first one that is requested and has no number. -/
structure FirstNotANumber (config : Config) (attributes : List Attribute) (a : Attribute) :
    Prop where
  split : ∃ earlier later, attributes = earlier ++ a :: later ∧
    ∀ b ∈ earlier, b.name.localName ∈ config.attributes → readNumber? b.value ≠ none
  requested : a.name.localName ∈ config.attributes
  value : readNumber? a.value = none

/-- A value that is no number is refused only under a name that was asked for. -/
theorem FirstNotANumber.requests {config : Config} {attributes : List Attribute} {a : Attribute}
    (h : config.FirstNotANumber attributes a) : config.Requests attributes := by
  obtain ⟨earlier, later, rfl, -⟩ := h.split
  exact ⟨a, by simp, h.requested⟩

/-- If some requested value is no number, then there is a first one. -/
theorem exists_firstNotANumber {config : Config} {attributes : List Attribute} {a : Attribute}
    (ha : a ∈ attributes) (hrequested : a.name.localName ∈ config.attributes)
    (hvalue : readNumber? a.value = none) : ∃ b, config.FirstNotANumber attributes b := by
  induction attributes with
  | nil => simp at ha
  | cons first attributes ih =>
    by_cases hfirst : first.name.localName ∈ config.attributes ∧ readNumber? first.value = none
    · exact ⟨first, ⟨[], attributes, rfl, by simp⟩, hfirst.1, hfirst.2⟩
    · have hmem : a ∈ attributes := by
        rcases List.mem_cons.1 ha with rfl | hmem
        · exact absurd ⟨hrequested, hvalue⟩ hfirst
        · exact hmem
      obtain ⟨b, ⟨earlier, later, rfl, hearlier⟩, hb, hbvalue⟩ := ih hmem
      refine ⟨b, ⟨first :: earlier, later, rfl, ?_⟩, hb, hbvalue⟩
      intro b' hb'
      rcases List.mem_cons.1 hb' with rfl | hb'
      · intro hname hnone
        exact hfirst ⟨hname, hnone⟩
      · exact hearlier b' hb'

/-- Why an event is refused. That an interval was begun before it matters only to an element with
an id. -/
inductive Refuses (config : Config) (begun : Prop) : Event → Malformed → Prop
  | intervalWithoutBegin {tag : Name} {attributes : List Attribute}
      (htag : tag.isNamed config.intervalTag = true)
      (hbegin : Attribute.find? attributes config.beginAttribute = none) :
      Refuses config begun (.startElement tag attributes)
        (.intervalWithoutBegin config.intervalTag config.beginAttribute)
  | beginNotANumber {tag : Name} {attributes : List Attribute} {raw : String}
      (htag : tag.isNamed config.intervalTag = true)
      (hbegin : Attribute.find? attributes config.beginAttribute = some raw)
      (hraw : readNumber? raw = none) :
      Refuses config begun (.startElement tag attributes)
        (.notANumber raw config.beginAttribute config.intervalTag)
  | elementWithoutId {tag : Name} {attributes : List Attribute} {kind : Kind}
      (hkind : Kind.ofName? tag.localName = some kind) (hrequests : config.Requests attributes)
      (hid : Attribute.find? attributes config.idAttribute = none) :
      Refuses config begun (.startElement tag attributes)
        (.elementWithoutId kind config.idAttribute)
  | outsideInterval {tag : Name} {attributes : List Attribute} {kind : Kind} {id : String}
      (hkind : Kind.ofName? tag.localName = some kind)
      (hselected : config.kinds.contains kind = true) (hrequests : config.Requests attributes)
      (hid : Attribute.find? attributes config.idAttribute = some id) (hbegun : ¬ begun) :
      Refuses config begun (.startElement tag attributes)
        (.outsideInterval kind id config.intervalTag)
  | notANumber {tag : Name} {attributes : List Attribute} {kind : Kind} {id : String}
      {a : Attribute} (hkind : Kind.ofName? tag.localName = some kind)
      (hselected : config.kinds.contains kind = true)
      (hid : Attribute.find? attributes config.idAttribute = some id) (hbegun : begun)
      (hfirst : config.FirstNotANumber attributes a) :
      Refuses config begun (.startElement tag attributes)
        (.notANumber a.value a.name.localName id)

/-- What is refused behind the start of an interval is refused without it too, though maybe for
another cause. -/
theorem Refuses.mono {config : Config} {begun begun' : Prop} (hmono : begun → begun') {e : Event}
    {cause : Malformed} (h : config.Refuses begun' e cause) :
    ∃ cause', config.Refuses begun e cause' := by
  cases h with
  | intervalWithoutBegin htag hbegin => exact ⟨_, .intervalWithoutBegin htag hbegin⟩
  | beginNotANumber htag hbegin hraw => exact ⟨_, .beginNotANumber htag hbegin hraw⟩
  | elementWithoutId hkind hrequests hid => exact ⟨_, .elementWithoutId hkind hrequests hid⟩
  | outsideInterval hkind hselected hrequests hid hbegun =>
    refine ⟨_, .outsideInterval hkind hselected hrequests hid ?_⟩
    intro h
    exact hbegun (hmono h)
  | notANumber hkind hselected hid _ hfirst =>
    by_cases hbegun : begun
    · exact ⟨_, .notANumber hkind hselected hid hbegun hfirst⟩
    · exact ⟨_, .outsideInterval hkind hselected hfirst.requests hid hbegun⟩

end Config

namespace Collector

/-! ## Recording the attributes of an element -/

/-- Whether an attribute is refused, and why, does not depend on what was recorded before it. -/
theorem error?_recordAttribute_congr {c : Collector} {series : Std.ExtTreeMap String Series}
    {id : String} {values : String → List Float}
    (h : ∀ name : String, series[name]? = c.series[name]?.map (Series.recordAll id (values name)))
    (kind : Kind) (a : Attribute) :
    (recordAttribute kind id a { c with series }).error? =
      (recordAttribute kind id a c).error? := by
  unfold recordAttribute
  simp only [h]
  cases c.series[a.name.localName]? with
  | none => rfl
  | some s =>
    simp only [Option.map_some, Series.isEmpty_recordAll]
    cases s.isEmpty <;> cases readNumber? a.value <;> rfl

/-- The error is that of the first attribute that is refused. -/
theorem error?_each_recordAttribute (kind : Kind) (id : String) (attributes : List Attribute)
    (c : Collector) :
    (Outcome.each (recordAttribute kind id) attributes c).error? =
      (attributes.find? c.refuses).bind fun a => (recordAttribute kind id a c).error? := by
  induction attributes generalizing c with
  | nil => rfl
  | cons a attributes ih =>
    rw [Outcome.each_cons]
    cases ha : c.refuses a with
    | true =>
      obtain ⟨cause, hfail⟩ := recordAttribute_of_refuses ha kind id
      rw [hfail, Outcome.andThen_fail, List.find?_cons_of_pos ha, Option.bind_some, hfail]
    | false =>
      obtain ⟨series, hok, hlookup⟩ := recordAttribute_of_not_refuses ha kind id
      rw [hok, Outcome.andThen_ok, ih, refuses_congr hlookup,
        List.find?_cons_of_neg (by simp [ha])]
      simp only [error?_recordAttribute_congr hlookup]

namespace Unjoined

variable {c : Collector}

/-- A value is refused before any interval, or if it is no number. -/
theorem refuses_iff (h : c.Unjoined) (a : Attribute) :
    c.refuses a = true ↔ a.name.localName ∈ c.config.attributes ∧
      (c.begins = #[] ∨ readNumber? a.value = none) := by
  by_cases hname : a.name.localName ∈ c.config.attributes
  · obtain ⟨series, hseries⟩ := (h.mem_attributes_iff _).1 hname
    rw [refuses, hseries]
    simp only [Bool.or_eq_true, h.isEmpty_iff hseries, Option.isNone_iff_eq_none, hname, true_and]
  · rw [refuses, h.getElem?_eq_none hname]
    simp [hname]

/-- Before the first interval a requested attribute is refused whatever its value. -/
theorem error?_recordAttribute_before (h : c.Unjoined) (hbegins : c.begins = #[]) {a : Attribute}
    (ha : a.name.localName ∈ c.config.attributes) (kind : Kind) (id : String) :
    (recordAttribute kind id a c).error? =
      some (.malformed (.outsideInterval kind id c.config.intervalTag)) := by
  obtain ⟨series, hseries⟩ := (h.mem_attributes_iff _).1 ha
  have hempty := (h.isEmpty_iff hseries).2 hbegins
  simp only [recordAttribute, hseries, hempty, if_true, Outcome.error?_fail]

/-- Behind the start of an interval it is refused for its value. -/
theorem error?_recordAttribute_behind (h : c.Unjoined) (hbegins : c.begins ≠ #[]) {a : Attribute}
    (ha : a.name.localName ∈ c.config.attributes) (hvalue : readNumber? a.value = none)
    (kind : Kind) (id : String) :
    (recordAttribute kind id a c).error? =
      some (.malformed (.notANumber a.value a.name.localName id)) := by
  obtain ⟨series, hseries⟩ := (h.mem_attributes_iff _).1 ha
  have hfilled : series.isEmpty ≠ true := mt (h.isEmpty_iff hseries).1 hbegins
  simp only [recordAttribute, hseries, hfilled, Bool.false_eq_true, if_false, hvalue,
    Outcome.error?_fail]

/-- Before any interval, some value is refused if any is requested. -/
theorem exists_find?_refuses_iff (h : c.Unjoined) (hbegins : c.begins = #[])
    {attributes : List Attribute} :
    (∃ a, attributes.find? c.refuses = some a) ↔ c.config.Requests attributes := by
  simp only [← Option.isSome_iff_exists, List.find?_isSome, h.refuses_iff, hbegins, true_or,
    and_true, Config.Requests]

/-- Within an interval, the value that is refused is the first that is no number. -/
theorem find?_refuses_iff (h : c.Unjoined) (hbegins : c.begins ≠ #[])
    {attributes : List Attribute} {a : Attribute} :
    attributes.find? c.refuses = some a ↔ c.config.FirstNotANumber attributes a := by
  have hrefuses (b : Attribute) : c.refuses b = true ↔
      b.name.localName ∈ c.config.attributes ∧ readNumber? b.value = none := by
    rw [h.refuses_iff, or_iff_right hbegins]
  rw [List.find?_eq_some_iff_append]
  constructor
  · rintro ⟨ha, earlier, later, rfl, hearlier⟩
    obtain ⟨hrequested, hvalue⟩ := (hrefuses a).1 ha
    refine ⟨⟨earlier, later, rfl, ?_⟩, hrequested, hvalue⟩
    intro b hb hname hnone
    simpa [(hrefuses b).2 ⟨hname, hnone⟩] using hearlier b hb
  · rintro ⟨⟨earlier, later, rfl, hearlier⟩, hrequested, hvalue⟩
    refine ⟨(hrefuses a).2 ⟨hrequested, hvalue⟩, earlier, later, rfl, ?_⟩
    intro b hb
    rw [Bool.not_eq_true', ← Bool.not_eq_true, hrefuses]
    rintro ⟨hname, hnone⟩
    exact hearlier b hb hname hnone

/-- An element of a selected kind is refused with its first attribute that is. -/
theorem error?_recordElement_of_selected (h : c.Unjoined) {kind : Kind}
    (hselected : c.config.kinds.contains kind = true) (id : String) (attributes : List Attribute) :
    (recordElement kind id attributes c).error? =
      (attributes.find? c.refuses).bind fun a => (recordAttribute kind id a c).error? := by
  simp only [recordElement, h.phase_ne, hselected, Bool.not_true, Bool.false_eq_true, if_false]
  rw [← error?_each_recordAttribute]
  rcases heach : (Outcome.each (recordAttribute kind id) attributes c).error? with _ | failed
  · rw [Outcome.error?_andThen_of_ok heach]
    rfl
  · rw [Outcome.andThen_of_error heach, heach]

/-- Before the first interval no requested attribute is taken; behind it only numbers are. -/
theorem error?_recordElement_iff (h : c.Unjoined) {kind : Kind} {id : String}
    {attributes : List Attribute} {error : Error} :
    (recordElement kind id attributes c).error? = some error ↔
      c.config.kinds.contains kind = true ∧
        (c.begins = #[] ∧ c.config.Requests attributes ∧
            error = .malformed (.outsideInterval kind id c.config.intervalTag) ∨
          c.begins ≠ #[] ∧ ∃ a, c.config.FirstNotANumber attributes a ∧
            error = .malformed (.notANumber a.value a.name.localName id)) := by
  cases hselected : c.config.kinds.contains kind with
  | false => simp [recordElement, h.phase_ne, hselected]
  | true =>
    simp only [h.error?_recordElement_of_selected hselected, Option.bind_eq_some_iff, true_and]
    -- before any interval every requested value is refused; behind one, those that are no numbers
    by_cases hbegins : c.begins = #[]
    · have hrefused {a : Attribute} (hfind : attributes.find? c.refuses = some a) :=
        h.error?_recordAttribute_before hbegins ((h.refuses_iff a).1 (List.find?_some hfind)).1 kind
          id
      rw [← h.exists_find?_refuses_iff hbegins]
      constructor
      · rintro ⟨a, hfind, herror⟩
        rw [hrefused hfind, Option.some_inj] at herror
        exact .inl ⟨hbegins, ⟨a, hfind⟩, herror.symm⟩
      · rintro (⟨-, ⟨a, hfind⟩, rfl⟩ | ⟨hbegun, -⟩)
        · exact ⟨a, hfind, hrefused hfind⟩
        · contradiction
    · have hrefused {a : Attribute} (hfirst : c.config.FirstNotANumber attributes a) :=
        h.error?_recordAttribute_behind hbegins hfirst.requested hfirst.value kind id
      simp only [h.find?_refuses_iff hbegins]
      constructor
      · rintro ⟨a, hfirst, herror⟩
        rw [hrefused hfirst, Option.some_inj] at herror
        exact .inr ⟨hbegins, a, hfirst, herror.symm⟩
      · rintro (⟨hempty, -⟩ | ⟨-, a, hfirst, rfl⟩)
        · contradiction
        · exact ⟨a, hfirst, hrefused hfirst⟩

/-! ## One event -/

/-- The start of an interval needs a number where the interval begins. -/
theorem error?_interval_iff (h : c.Unjoined) {tag : Name}
    (htag : tag.isNamed c.config.intervalTag = true) {attributes : List Attribute} {error : Error} :
    (startElement tag attributes c).error? = some error ↔
      Attribute.find? attributes c.config.beginAttribute = none ∧
          error = .malformed (.intervalWithoutBegin c.config.intervalTag c.config.beginAttribute) ∨
        ∃ raw, Attribute.find? attributes c.config.beginAttribute = some raw ∧
          readNumber? raw = none ∧
          error = .malformed (.notANumber raw c.config.beginAttribute c.config.intervalTag) := by
  rw [startElement_of_isNamed attributes htag]
  simp only [startInterval]
  rcases hbegin : Attribute.find? attributes c.config.beginAttribute with _ | raw
  · simp [eq_comm]
  · rcases hraw : readNumber? raw with _ | begin
    · simp [hraw, eq_comm]
    · have hopen : (openInterval begin { c with insideInterval := true }).error? = none :=
        (openInterval_of_not_reduced (c := { c with insideInterval := true }) h.phase_ne begin).1
      simp [Outcome.error?_andThen_of_ok, hraw, hopen]

/-- The start of an edge or lane with a requested attribute needs an id first. -/
theorem error?_measured_iff (h : c.Unjoined) {tag : Name} {kind : Kind}
    (htag : tag.isNamed c.config.intervalTag = false)
    (hkind : Kind.ofName? tag.localName = some kind) {attributes : List Attribute} {error : Error} :
    (startElement tag attributes c).error? = some error ↔
      c.config.Requests attributes ∧
        (Attribute.find? attributes c.config.idAttribute = none ∧
            error = .malformed (.elementWithoutId kind c.config.idAttribute) ∨
          ∃ id, Attribute.find? attributes c.config.idAttribute = some id ∧
            (recordElement kind id attributes c).error? = some error) := by
  rw [startElement_of_kind attributes htag hkind, startMeasured, ← h.any_isRequested_iff]
  split
  · next hany =>
    cases hid : Attribute.find? attributes c.config.idAttribute with
    | none => simp [hany, eq_comm]
    | some id => simp [hany]
  · next hany => simp [hany]

/-- What fails is refused by the specification. -/
theorem exists_refuses_of_error?_receive (h : c.Unjoined) (hvalid : c.config.fault? = none)
    {e : Event} {error : Error} (herror : (handler.receive e c).error? = some error) :
    ∃ cause, error = .malformed cause ∧ c.config.Refuses (c.begins ≠ #[]) e cause := by
  cases e with
  | startDocument => simp [Handler.receive, handler, startDocument, h.phase_ne] at herror
  | endDocument => simp [Handler.receive, handler, endDocument, Outcome.tell] at herror
  | endElement tag => simp [Handler.receive, handler, endElement] at herror
  | startElement tag attributes =>
    replace herror : (startElement tag attributes c).error? = some error := herror
    by_cases hinterval : tag.isNamed c.config.intervalTag = true
    · rcases (h.error?_interval_iff hinterval).1 herror with
        ⟨hbegin, rfl⟩ | ⟨raw, hbegin, hraw, rfl⟩
      · exact ⟨_, rfl, .intervalWithoutBegin hinterval hbegin⟩
      · exact ⟨_, rfl, .beginNotANumber hinterval hbegin hraw⟩
    rcases hkind : Kind.ofName? tag.localName with _ | kind
    · rw [startElement_of_other attributes (by simpa using hinterval) hkind] at herror
      simp at herror
    obtain ⟨hrequests, ⟨hid, rfl⟩ | ⟨id, hid, hrecord⟩⟩ :=
      (h.error?_measured_iff (Config.isNamed_eq_false_of_kind hvalid hkind) hkind).1 herror
    · exact ⟨_, rfl, .elementWithoutId hkind hrequests hid⟩
    obtain ⟨hselected, ⟨hbegins, -, rfl⟩ | ⟨hbegins, a, hfirst, rfl⟩⟩ :=
      h.error?_recordElement_iff.1 hrecord
    · exact ⟨_, rfl, .outsideInterval hkind hselected hrequests hid (by simp [hbegins])⟩
    · exact ⟨_, rfl, .notANumber hkind hselected hid hbegins hfirst⟩

/-- What the specification refuses fails, and for that reason. -/
theorem error?_receive_of_refuses (h : c.Unjoined) (hvalid : c.config.fault? = none) {e : Event}
    {cause : Malformed} (hrefuses : c.config.Refuses (c.begins ≠ #[]) e cause) :
    (handler.receive e c).error? = some (.malformed cause) := by
  have htag {tag : Name} {kind : Kind} (hkind : Kind.ofName? tag.localName = some kind) :
      tag.isNamed c.config.intervalTag = false :=
    Config.isNamed_eq_false_of_kind hvalid hkind
  cases hrefuses with
  | intervalWithoutBegin hinterval hbegin =>
    exact (h.error?_interval_iff hinterval).2 (.inl ⟨hbegin, rfl⟩)
  | beginNotANumber hinterval hbegin hraw =>
    exact (h.error?_interval_iff hinterval).2 (.inr ⟨_, hbegin, hraw, rfl⟩)
  | elementWithoutId hkind hrequests hid =>
    exact (h.error?_measured_iff (htag hkind) hkind).2 ⟨hrequests, .inl ⟨hid, rfl⟩⟩
  | outsideInterval hkind hselected hrequests hid hbegun =>
    apply (h.error?_measured_iff (htag hkind) hkind).2
    refine ⟨hrequests, .inr ⟨_, hid, h.error?_recordElement_iff.2 ⟨hselected, .inl ?_⟩⟩⟩
    exact ⟨by simpa using hbegun, hrequests, rfl⟩
  | notANumber hkind hselected hid hbegun hfirst =>
    apply (h.error?_measured_iff (htag hkind) hkind).2
    refine ⟨hfirst.requests, .inr ⟨_, hid, h.error?_recordElement_iff.2 ⟨hselected, .inr ?_⟩⟩⟩
    exact ⟨hbegun, _, hfirst, rfl⟩

/-- **One event** is refused for the causes that `Config.Refuses` lists, and for no other. -/
theorem error?_receive_iff (h : c.Unjoined) (hvalid : c.config.fault? = none) {e : Event}
    {error : Error} :
    (handler.receive e c).error? = some error ↔
      ∃ cause, error = .malformed cause ∧ c.config.Refuses (c.begins ≠ #[]) e cause := by
  constructor
  · exact h.exists_refuses_of_error?_receive hvalid
  · rintro ⟨cause, rfl, hrefuses⟩
    exact h.error?_receive_of_refuses hvalid hrefuses

/-- What is accepted at some place is accepted wherever there is an interval too. -/
theorem error?_receive_of_accepted {later : Collector} (h : c.Unjoined) (hlater : later.Unjoined)
    (hconfig : later.config = c.config) (hbegun : c.begins ≠ #[] → later.begins ≠ #[])
    (hvalid : c.config.fault? = none) {e : Event} (hok : (handler.receive e c).error? = none) :
    (handler.receive e later).error? = none := by
  apply Option.eq_none_iff_forall_ne_some.2
  intro error herror
  obtain ⟨cause, -, hrefuses⟩ :=
    hlater.exists_refuses_of_error?_receive (by rw [hconfig, hvalid]) herror
  rw [hconfig] at hrefuses
  obtain ⟨cause', hrefuses'⟩ := hrefuses.mono hbegun
  have herror' := h.error?_receive_of_refuses hvalid hrefuses'
  rw [hok] at herror'
  contradiction

end Unjoined

end Collector

/-! ## A dump -/

namespace Config

open Collector (readNumber?)

/-- One of the events starts an interval. -/
def Begun (config : Config) (events : List Event) : Prop :=
  ∃ e ∈ events, (e.interval? config.intervalTag).isSome = true

/-- What must not stand behind the events `earlier`. -/
inductive Offends (config : Config) (earlier : List Event) : Event → Prop
  /-- An interval that begins nowhere, or not at a number. -/
  | interval {tag : Name} {attributes : List Attribute}
      (htag : tag.isNamed config.intervalTag = true)
      (hbegin : ∀ begin, ¬ config.Begins attributes begin) :
      Offends config earlier (.startElement tag attributes)
  /-- An edge or lane with a requested attribute but without an id, or outside of the intervals, or
  with a value that is not a number. -/
  | measured {tag : Name} {attributes : List Attribute} {kind : Kind}
      (hkind : Kind.ofName? tag.localName = some kind) (hrequests : config.Requests attributes)
      (hfault : Attribute.find? attributes config.idAttribute = none ∨ ¬ config.Begun earlier ∨
        ∃ a ∈ attributes, a.name.localName ∈ config.attributes ∧ readNumber? a.value = none) :
      Offends config earlier (.startElement tag attributes)

/-- No event of a dump offends. -/
def Admits (config : Config) (events : List Event) : Prop :=
  ∀ earlier e later, events = earlier ++ e :: later → ¬ config.Offends earlier e

/-- If all kinds are selected, what offends is what is refused. -/
theorem offends_iff {config : Config} (hkinds : config.kinds = .full) {earlier : List Event}
    {e : Event} :
    config.Offends earlier e ↔ ∃ cause, config.Refuses (config.Begun earlier) e cause := by
  have hselected (kind : Kind) : config.kinds.contains kind = true := by
    rw [hkinds, KindSet.contains_full]
  constructor
  · intro h
    cases h with
    | @interval tag attributes htag hbegin =>
      rcases hfind : Attribute.find? attributes config.beginAttribute with _ | raw
      · exact ⟨_, .intervalWithoutBegin htag hfind⟩
      · refine ⟨_, .beginNotANumber htag hfind ?_⟩
        apply Option.eq_none_iff_forall_ne_some.2
        intro begin hraw
        exact hbegin begin ⟨raw, hfind, hraw⟩
    | @measured tag attributes kind hkind hrequests hfault =>
      rcases hid : Attribute.find? attributes config.idAttribute with _ | id
      · exact ⟨_, .elementWithoutId hkind hrequests hid⟩
      -- with an id, what is wrong depends on whether an interval was begun: before one nothing may
      -- be recorded, behind one only numbers
      by_cases hbegun : config.Begun earlier
      · rcases hfault with hnone | houtside | ⟨a, ha, hname, hvalue⟩
        · simp [hid] at hnone
        · exact absurd hbegun houtside
        · obtain ⟨b, hfirst⟩ := exists_firstNotANumber ha hname hvalue
          exact ⟨_, .notANumber hkind (hselected kind) hid hbegun hfirst⟩
      · exact ⟨_, .outsideInterval hkind (hselected kind) hrequests hid hbegun⟩
  · rintro ⟨cause, h⟩
    cases h with
    | intervalWithoutBegin htag hfind =>
      apply Offends.interval htag
      rintro begin ⟨raw, hsome, -⟩
      simp [hfind] at hsome
    | beginNotANumber htag hfind hraw =>
      apply Offends.interval htag
      rintro begin ⟨raw', hsome, hbegin⟩
      obtain rfl := Option.some.inj (hfind.symm.trans hsome)
      simp [hraw] at hbegin
    | elementWithoutId hkind hrequests hid => exact .measured hkind hrequests (.inl hid)
    | outsideInterval hkind _ hrequests _ hbegun =>
      exact .measured hkind hrequests (.inr (.inl hbegun))
    | notANumber hkind _ _ _ hfirst =>
      obtain ⟨earlier', later, rfl, -⟩ := hfirst.split
      refine .measured hkind hfirst.requests (.inr (.inr ⟨_, ?_, hfirst.requested, hfirst.value⟩))
      simp

end Config

namespace Collector

/-- Behind accepted events, an event is refused for the causes that these events leave it. -/
theorem error?_receive_replay_iff {config : Config} (hvalid : config.fault? = none)
    {earlier : List Event} (hok : (replay handler earlier (fresh config)).error? = none)
    {e : Event} {error : Error} :
    (handler.receive e (replay handler earlier (fresh config)).state).error? = some error ↔
      ∃ cause, error = .malformed cause ∧ config.Refuses (config.Begun earlier) e cause := by
  have hconfig : (replay handler earlier (fresh config)).state.config = config :=
    config_replay earlier _
  have hbegun : (replay handler earlier (fresh config)).state.begins ≠ #[] ↔
      config.Begun earlier := by
    rw [ne_eq, begins_replay_eq_empty_iff hok]
    simp [Config.Begun, fresh, Option.isSome_iff_ne_none]
  rw [((unjoined_fresh config).replay earlier).error?_receive_iff (by rw [hconfig, hvalid]),
    hconfig, hbegun]

/-- If all kinds are selected, what is accepted is what does not offend. -/
theorem error?_replay_eq_none_iff {config : Config} (hvalid : config.fault? = none)
    (hkinds : config.kinds = .full) (events : List Event) :
    (replay handler events (fresh config)).error? = none ↔ config.Admits events := by
  constructor
  · rintro hok earlier e later rfl hoffends
    obtain ⟨cause, hrefuses⟩ := (Config.offends_iff hkinds).1 hoffends
    rw [replay_append, Outcome.error?_andThen_eq_none, replay_cons,
      Outcome.error?_andThen_eq_none] at hok
    have herror := (error?_receive_replay_iff hvalid hok.1).2 ⟨cause, rfl, hrefuses⟩
    rw [hok.2.1] at herror
    contradiction
  · intro hadmits
    apply Option.eq_none_iff_forall_ne_some.2
    intro error herror
    obtain ⟨earlier, e, later, rfl, hearlier, he⟩ := Outcome.exists_of_error?_each herror
    obtain ⟨cause, -, hrefuses⟩ := (error?_receive_replay_iff hvalid hearlier).1 he
    exact hadmits earlier e later rfl ((Config.offends_iff hkinds).2 ⟨cause, hrefuses⟩)

/-- A replay stops at an event that is refused. -/
theorem replay_of_refuses {config : Config} (hvalid : config.fault? = none) {earlier : List Event}
    (hok : (replay handler earlier (fresh config)).error? = none) {e : Event} {cause : Malformed}
    (hrefuses : config.Refuses (config.Begun earlier) e cause) (later : List Event) :
    replay handler (earlier ++ e :: later) (fresh config) =
        replay handler (earlier ++ [e]) (fresh config) ∧
      (replay handler (earlier ++ e :: later) (fresh config)).error? =
        some (.malformed cause) := by
  have herror : (replay handler (earlier ++ [e]) (fresh config)).error? =
      some (.malformed cause) := by
    rw [replay, Outcome.error?_each_concat hok]
    exact (error?_receive_replay_iff hvalid hok).2 ⟨cause, rfl, hrefuses⟩
  have hfinal : replay handler (earlier ++ e :: later) (fresh config) =
      replay handler (earlier ++ [e]) (fresh config) := by
    rw [List.append_cons]
    exact Outcome.each_append_of_error herror later
  exact ⟨hfinal, hfinal ▸ herror⟩

end Collector

/-- What is seen of a dump that is refused at the event `e`, behind the events `earlier`. -/
structure RefusedAt (config : Config) (c : Collector) (earlier : List Event) (e : Event)
    (later : List Event) : Prop where
  accepted : (replay Collector.handler earlier c).error? = none
  /-- The events behind it have no effect. -/
  final : replay Collector.handler (earlier ++ e :: later) c =
    replay Collector.handler (earlier ++ [e]) c
  malformed : ∃ cause, config.Refuses (config.Begun earlier) e cause ∧
    (replay Collector.handler (earlier ++ e :: later) c).error? = some (.malformed cause)
  /-- Of the values that are not numbers the first one is reported. -/
  message : ∀ tag attributes kind id a, e = .startElement tag attributes →
    Kind.ofName? tag.localName = some kind →
    Attribute.find? attributes config.idAttribute = some id → config.Begun earlier →
    config.FirstNotANumber attributes a →
      (replay Collector.handler (earlier ++ e :: later) c).error?.map Collector.Error.message =
        some s!"Malformed input: value '{a.value}' of attribute '{a.name.localName}' on element '{id}' is not a number"

/-- **Which dumps are accepted**, if all kinds are selected: those in which no event offends. Every
other one is refused at its first event that does. -/
theorem replay_refused {config : Config} {c : Collector} (hc : Collector.ofConfig config = .ok c)
    (hkinds : config.kinds = .full) :
    (∀ events, (replay Collector.handler events c).error? = none ↔ config.Admits events) ∧
      ∀ earlier e later, config.Admits earlier → config.Offends earlier e →
        RefusedAt config c earlier e later := by
  obtain ⟨hvalid, rfl⟩ := Collector.eq_fresh_of_ofConfig hc
  refine ⟨Collector.error?_replay_eq_none_iff hvalid hkinds, ?_⟩
  intro earlier e later hadmits hoffends
  have hearlier := (Collector.error?_replay_eq_none_iff hvalid hkinds earlier).2 hadmits
  obtain ⟨cause, hrefuses⟩ := (Config.offends_iff hkinds).1 hoffends
  obtain ⟨hfinal, herror⟩ := Collector.replay_of_refuses hvalid hearlier hrefuses later
  refine ⟨hearlier, hfinal, ⟨cause, hrefuses, herror⟩, ?_⟩
  rintro tag attributes kind id a rfl hkind hid hbegun hfirst
  have hselected : config.kinds.contains kind = true := by
    rw [hkinds, KindSet.contains_full]
  have hnumber := Config.Refuses.notANumber hkind hselected hid hbegun hfirst
  rw [(Collector.replay_of_refuses hvalid hearlier hnumber later).2]
  rfl

/-- An edge with two speeds that are not numbers. -/
def unreadEdge : Event :=
  .start "edge" [("speed", " 1 "), ("id", "e"), ("speed", "fast"), ("speed", "slow")]

/-- The first of the two speeds is reported, and the interval behind the edge is not. -/
theorem replay_refused_unreadEdge :
    let config := Config.ofAttributes ["speed"]
    let earlier := [.startDocument, .start "interval" [("begin", "0")]]
    let later := [.start "interval" [], .endDocument]
    Collector.ofConfig config = .ok (.fresh config) ∧ config.kinds = .full ∧
      config.Admits earlier ∧ config.Offends earlier unreadEdge ∧
      RefusedAt config (.fresh config) earlier unreadEdge later ∧
      (replay Collector.handler (earlier ++ unreadEdge :: later) (.fresh config)).error? =
        some (.malformed (.notANumber "fast" "speed" "e")) := by
  intro config earlier later
  have hnew : Collector.ofConfig config = .ok (.fresh config) := rfl
  have hrefused := replay_refused hnew rfl
  have hadmits : config.Admits earlier := (hrefused.1 earlier).1 (by decide +kernel)
  have hrequested : "speed" ∈ config.attributes := by decide +kernel
  have hoffends : config.Offends earlier unreadEdge := by
    have hkind : Kind.ofName? "edge" = some .edge := rfl
    refine .measured hkind ?_ ?_
    · exact ⟨⟨.ofLocal "speed", "fast"⟩, by simp, hrequested⟩
    · exact .inr (.inr ⟨⟨.ofLocal "speed", "fast"⟩, by simp, hrequested, by decide +kernel⟩)
  exact ⟨hnew, rfl, hadmits, hoffends, hrefused.2 earlier unreadEdge later hadmits hoffends,
    by decide +kernel⟩

end IntervalDump
