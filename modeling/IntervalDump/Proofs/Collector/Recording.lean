import IntervalDump.Proofs.Collector.Refusal
/-!
# What recording an element leaves

An element of a selected kind is recorded attribute by attribute, so a recording that fails leaves
the attributes before the one at which it fails (`recordElement_records`). Which attribute that is,
the configuration and the begins of the collector tell (`rejects`); of the attributes before it,
each requested name takes the last value that is given for it (`Records`).

The loop is followed in `each_recordAttribute_takes`, where an attribute is refused for what is in
the table. In a reachable collector before any join the table has a snapshot for every interval, so
both say the same (`Unjoined.rejects_iff`).
-/

namespace IntervalDump.Collector

/-- Whether an attribute cannot be recorded: it is requested, but there is no interval yet or its
value is not a number. -/
def rejects (c : Collector) (a : Attribute) : Bool :=
  c.config.attributes.contains a.name.localName &&
    (c.begins.isEmpty || (readNumber? a.value).isNone)

/-- The collector `after` is `before` with these attributes of an element recorded. -/
structure Records (id : String) (recorded : List Attribute) (before after : Collector) : Prop where
  config_eq : after.config = before.config
  begins_eq : after.begins = before.begins
  phase_eq : after.phase = before.phase
  insideInterval_eq : after.insideInterval = before.insideInterval
  /-- In the last snapshot of a requested attribute the element has the number of the last of its
  values; the other elements and the earlier snapshots are as they were. -/
  number : ∀ (name raw : String), name ∈ before.config.attributes →
    Attribute.findLast? recorded name = some raw → ∃ x earlier latest,
      readNumber? raw = some x ∧ before.get name = .ok (earlier ++ [latest]) ∧
        after.get name = .ok (earlier ++ [latest.insert id x])
  others : ∀ name : String, name ∉ before.config.attributes ∨
    Attribute.findLast? recorded name = none → after.series[name]? = before.series[name]?

/-- What is stored under a name is what the collector gives for it. -/
theorem get_of_getElem? {c : Collector} {name : String} {series : Series}
    (h : c.series[name]? = some series) : c.get name = .ok series.toList := by
  simp only [get, h]

/-- Before the first join a collector that can be reached has joined nothing. -/
theorem IsReachable.unjoined {c : Collector} (h : c.IsReachable) (hphase : c.phase ≠ .reduced) :
    c.Unjoined := by
  obtain ⟨joined, haligned⟩ := h.exists_aligned
  obtain rfl := haligned.joined_eq_nil hphase
  exact haligned

namespace Unjoined

variable {c : Collector} (h : c.Unjoined)
include h

/-- A value is refused exactly if the specification rejects it. -/
theorem refuses_eq_rejects : c.refuses = c.rejects := by
  funext a
  rw [Bool.eq_iff_iff, h.refuses_iff, rejects, Bool.and_eq_true, Bool.or_eq_true,
    Array.isEmpty_iff, Option.isNone_iff_eq_none, Std.ExtTreeSet.contains_iff_mem]

/-- What the loop over the attributes leaves. -/
theorem records_each (kind : Kind) (id : String) (attributes : List Attribute) :
    Records id (attributes.takeWhile fun a => !c.rejects a) c
      (Outcome.each (recordAttribute kind id) attributes c).state := by
  rw [← h.refuses_eq_rejects]
  have htakes := each_recordAttribute_takes kind id attributes c
  obtain ⟨table, hstate, -⟩ := each_recordAttribute kind id attributes c
  refine ⟨htakes.config_eq, htakes.begins_eq, by rw [hstate], by rw [hstate], ?_, ?_⟩
  · intro name raw hname hlast
    obtain ⟨series, hseries⟩ := (h.mem_attributes_iff name).1 hname
    obtain ⟨hfilled, x, hx, hafter⟩ :=
      htakes.recorded name series id raw hseries (by rw [hlast, Option.map_some])
    have hne : series.toList ≠ [] := by
      intro hnil
      rw [← Bool.not_eq_true, Series.isEmpty_eq_true, ← Series.length_toList, hnil] at hfilled
      exact hfilled rfl
    obtain ⟨earlier, latest, hsplit⟩ := (List.eq_nil_or_concat' series.toList).resolve_left hne
    refine ⟨x, earlier, latest, hx, ?_, ?_⟩
    · rw [get_of_getElem? hseries, hsplit]
    · rw [get_of_getElem? hafter, Series.toList_record hsplit]
  · intro name hquiet
    rcases hseries : c.series[name]? with _ | series
    · exact htakes.others name hseries
    · have hname := (h.mem_attributes_iff name).2 ⟨series, hseries⟩
      have hnone := hquiet.resolve_left (not_not_intro hname)
      exact htakes.quiet name series hseries (by rw [hnone, Option.map_none])

end Unjoined

/-- **What recording an element leaves**, also if it fails. An element of a selected kind is
recorded as a whole if and only if none of its attributes is rejected; if one is, the attributes
before it are recorded, and nothing else changes. An element of another kind changes nothing. -/
theorem recordElement_records {c : Collector} (h : c.IsReachable) (hphase : c.phase ≠ .reduced)
    (kind : Kind) (id : String) (attributes : List Attribute) :
    let o := c.recordElement kind id attributes
    (c.config.kinds.contains kind = true →
        (o.error? = none ↔ ∀ a ∈ attributes, c.rejects a = false) ∧
          Records id (attributes.takeWhile fun a => !c.rejects a) c o.state) ∧
      (c.config.kinds.contains kind = false → o = .ok c) := by
  have hunjoined := h.unjoined hphase
  intro o
  constructor
  · intro hkind
    obtain ⟨-, -, -, herror⟩ := each_recordAttribute kind id attributes c
    have hrecords := hunjoined.records_each kind id attributes
    rw [hunjoined.refuses_eq_rejects] at herror
    have ho : o = (Outcome.each (recordAttribute kind id) attributes c).andThen
        (Outcome.tell (.elementRecorded kind id)) := by
      simp only [o, recordElement, hphase, hkind, Bool.not_true, Bool.false_eq_true, if_false]
    rcases heach : (Outcome.each (recordAttribute kind id) attributes c).error? with _ | error
    · rw [ho, Outcome.error?_andThen_of_ok heach, Outcome.state_andThen_of_ok heach,
        Outcome.state_tell]
      exact ⟨iff_of_true rfl (herror.1 heach), hrecords⟩
    · rw [ho, Outcome.andThen_of_error heach]
      exact ⟨herror, hrecords⟩
  · intro hkind
    simp only [o, recordElement, hphase, hkind, Bool.not_false, if_false, if_true]

/-- Attributes of one edge: the speed is given twice, then comes a value that is not a number. -/
def mixedAttributes : List Attribute :=
  [⟨.ofLocal "speed", "2"⟩, ⟨.ofLocal "name", "?"⟩, ⟨⟨some "x", "speed"⟩, " 3 "⟩,
   ⟨.ofLocal "density", "?"⟩, ⟨.ofLocal "speed", "4"⟩]

/-- The second speed is recorded before the recording fails, and the third one is not. -/
theorem recordElement_records_mixedAttributes :
    let c := run [.openInterval 0] (ofAttributes ["speed", "density"])
    let o := c.recordElement .edge "e" mixedAttributes
    c.IsReachable ∧ c.phase ≠ .reduced ∧ c.config.kinds.contains .edge = true ∧
      o.error? ≠ none ∧ Records "e" (mixedAttributes.take 3) c o.state ∧
      ∃ x earlier latest, readNumber? " 3 " = some x ∧
        c.get "speed" = .ok (earlier ++ [latest]) ∧
        o.state.get "speed" = .ok (earlier ++ [latest.insert "e" x]) := by
  intro c o
  have hreachable : c.IsReachable :=
    ⟨_, [.openInterval 0], .ofAttributes ["speed", "density"], rfl⟩
  have hphase : c.phase ≠ .reduced := by decide +kernel
  obtain ⟨hselected, -⟩ := recordElement_records hreachable hphase .edge "e" mixedAttributes
  obtain ⟨herror, hrecords⟩ := hselected rfl
  have hbefore : (mixedAttributes.takeWhile fun a => !c.rejects a) = mixedAttributes.take 3 := by
    decide +kernel
  rw [hbefore] at hrecords
  refine ⟨hreachable, hphase, rfl, ?_, hrecords, ?_⟩
  · rw [Ne, herror]
    decide +kernel
  · exact hrecords.number "speed" " 3 " (by decide +kernel) (by decide +kernel)

end IntervalDump.Collector
