import IntervalDump.Proofs.Collector.Replay
/-!
# A collector with joined series is final

Once series were joined, a collector takes no further measurements, whatever it is asked and however
often. Its intervals are what they are, and a series changes only by a later join that names it.

* **One operation** (`Kept`, `kept_apply`): the configuration, the intervals, the phase and the
  series of all names that are not joined stay. No operation forgets to look at the phase.
* **What is refused** (`Final`): the start of a document, of an interval and of an element with a
  requested attribute. All other events are accepted.
* **A whole history** (`run_final`): both hold at any time behind the first join.
-/

namespace IntervalDump.Collector

/-! ## One operation -/

/-- The collector `after` is `before` with other series for the names in `joined`, and maybe another
mark whether an interval is open. -/
structure Kept (joined : List String) (before after : Collector) : Prop where
  config_eq : after.config = before.config
  begins_eq : after.begins = before.begins
  phase_eq : after.phase = before.phase
  series_eq : ∀ name : String, name ∉ joined → after.series[name]? = before.series[name]?

namespace Kept

variable {joined : List String} {before between after : Collector}

/-- Nothing changes if nothing is done. -/
theorem refl (joined : List String) (c : Collector) : Kept joined c c :=
  ⟨rfl, rfl, rfl, fun _ _ => rfl⟩

/-- Where no name is joined, none of any others is. -/
theorem weaken (h : Kept [] before after) : Kept joined before after :=
  ⟨h.config_eq, h.begins_eq, h.phase_eq, fun name _ => h.series_eq name List.not_mem_nil⟩

/-- What is kept from one point to the next and from there on is kept throughout. -/
theorem trans {later : List String} (h : Kept joined before between)
    (h' : Kept later between after) : Kept (joined ++ later) before after where
  config_eq := h'.config_eq.trans h.config_eq
  begins_eq := h'.begins_eq.trans h.begins_eq
  phase_eq := h'.phase_eq.trans h.phase_eq
  series_eq name hname := by
    rw [List.mem_append, not_or] at hname
    rw [h'.series_eq name hname.2, h.series_eq name hname.1]

end Kept

section Step

variable {c : Collector} (hphase : c.phase = .reduced)

include hphase

/-- No document begins behind a join. -/
theorem startDocument_of_reduced : startDocument c = .fail (.malformed .alreadyJoined) c := by
  rw [startDocument, if_pos hphase]

/-- No element is recorded behind a join. -/
theorem recordElement_of_reduced (kind : Kind) (id : String) (attributes : List Attribute) :
    recordElement kind id attributes c = .fail (.malformed .alreadyJoined) c := by
  rw [recordElement, if_pos hphase]

/-- The start of an interval is refused, be it for its begin or for the phase. -/
theorem startInterval_of_reduced (attributes : List Attribute) :
    Kept [] c (startInterval attributes c).state ∧
      ∃ cause, (startInterval attributes c).error? = some (.malformed cause) := by
  simp only [startInterval]
  split
  · exact ⟨.refl [] c, _, rfl⟩
  · split
    · exact ⟨.refl [] c, _, rfl⟩
    · next begin _ =>
      -- The mark is set before the phase is looked at, so it may be left behind.
      have hmarked : ({ c with insideInterval := true } : Collector).phase = .reduced := hphase
      rw [Outcome.state_andThen_of_ok (Outcome.error?_tellIf ..),
        Outcome.error?_andThen_of_ok (Outcome.error?_tellIf ..), Outcome.state_tellIf,
        openInterval_of_reduced hmarked]
      exact ⟨⟨rfl, rfl, rfl, fun _ _ => rfl⟩, _, rfl⟩

/-- An edge or lane with a requested attribute is refused, be it for its id or for the phase. -/
theorem startMeasured_of_reduced {attributes : List Attribute}
    (hany : (attributes.any fun a => c.isRequested a.name.localName) = true) (kind : Kind) :
    ∃ cause, startMeasured kind attributes c = .fail (.malformed cause) c := by
  rw [startMeasured, if_pos hany]
  split
  · exact ⟨_, rfl⟩
  · exact ⟨_, recordElement_of_reduced hphase ..⟩

/-- Behind a join, a start tag changes nothing, whether it fails or not. -/
theorem kept_startElement (tag : Name) (attributes : List Attribute) :
    Kept [] c (startElement tag attributes c).state := by
  by_cases htag : tag.isNamed c.config.intervalTag = true
  · rw [startElement_of_isNamed attributes htag]
    exact (startInterval_of_reduced hphase attributes).1
  rw [Bool.not_eq_true] at htag
  rcases hkind : Kind.ofName? tag.localName with _ | kind
  · rw [startElement_of_other attributes htag hkind]
    exact .refl [] c
  rw [startElement_of_kind attributes htag hkind]
  by_cases hany : (attributes.any fun a => c.isRequested a.name.localName) = true
  · obtain ⟨cause, hfail⟩ := startMeasured_of_reduced hphase hany kind
    rw [hfail]
    exact .refl [] c
  · rw [startMeasured_of_quiet attributes (Bool.not_eq_true _ ▸ hany)]
    exact .refl [] c

/-- Behind a join, another one changes the series it joins. -/
theorem kept_join (names : List String) (how : Reduction) :
    Kept (match (c.join names how).error? with | none => names | some _ => []) c
      (c.join names how).state := by
  rcases hunknown : names.find? fun name => !c.isRequested name with _ | name
  · obtain ⟨series, hstate, hok, hseries⟩ := each_joinSeries how names c
    have hothers (name : String) (hname : name ∉ names) : series[name]? = c.series[name]? := by
      rw [hseries, List.count_eq_zero.2 hname, Function.iterate_zero, Option.map_id_apply]
    simp only [join, hunknown, Outcome.error?_map, Outcome.state_map, hok, hstate]
    split
    · exact ⟨rfl, rfl, rfl, hothers⟩
    · exact ⟨rfl, rfl, hphase.symm, hothers⟩
  · simp only [join, hunknown]
    exact .refl [] c

/-- **One operation** changes the series that it joins and no others. -/
theorem kept_apply (operation : Operation) :
    Kept (operation.joined c) c (operation.apply c).state := by
  cases operation with
  | startDocument =>
    simp only [Operation.apply, startDocument_of_reduced hphase]
    exact .refl _ c
  | endDocument =>
    simp only [Operation.apply, endDocument, hphase, if_true]
    exact .refl _ c
  | startElement name attributes => exact (kept_startElement hphase name attributes).weaken
  | endElement name =>
    simp only [Operation.apply, endElement]
    split
    · exact ⟨rfl, rfl, rfl, fun _ _ => rfl⟩
    · exact .refl _ c
  | openInterval begin =>
    simp only [Operation.apply, openInterval_of_reduced hphase]
    exact .refl _ c
  | recordElement kind id attributes =>
    simp only [Operation.apply, recordElement_of_reduced hphase]
    exact .refl _ c
  | join names how => exact kept_join hphase names how
  | joinNamed names how =>
    simp only [Operation.joined, Operation.names, Operation.apply, joinNamed]
    cases Reduction.parse how with
    | error unknown => exact .refl _ c
    | ok how => exact kept_join hphase names how

/-! ## Whole histories -/

/-- **Behind a join, no operations change anything** but the series that they join. -/
theorem kept_run (operations : List Operation) :
    Kept (joinedIn operations c) c (run operations c) := by
  induction operations generalizing c with
  | nil => exact .refl [] c
  | cons operation operations ih =>
    have hkept := kept_apply hphase operation
    exact hkept.trans (ih (hkept.phase_eq.trans hphase))

end Step

/-- What a collector refuses and accepts when no measurements are taken any more. -/
structure Final (c : Collector) : Prop where
  startDocument : ∃ cause, (startDocument c).error? = some (.malformed cause)
  openInterval : ∀ begin, ∃ cause, (openInterval begin c).error? = some (.malformed cause)
  recordElement : ∀ kind id attributes, ∃ cause,
    (recordElement kind id attributes c).error? = some (.malformed cause)
  interval : ∀ tag attributes, tag.isNamed c.config.intervalTag = true → ∃ cause,
    (startElement tag attributes c).error? = some (.malformed cause)
  measured : ∀ tag attributes kind, Kind.ofName? tag.localName = some kind →
    c.config.Requests attributes → ∃ cause,
      (startElement tag attributes c).error? = some (.malformed cause)
  /-- Other elements are accepted: of other names, or without a requested attribute. -/
  other : ∀ tag attributes, tag.isNamed c.config.intervalTag = false →
    (∀ kind, Kind.ofName? tag.localName = some kind → ¬ c.config.Requests attributes) →
      (startElement tag attributes c).error? = none
  endElement : ∀ tag, (endElement tag c).error? = none
  endDocument : (endDocument c).error? = none

/-- A reduced collector that is aligned is final. -/
theorem final_of_reduced {c : Collector} (hphase : c.phase = .reduced) {joined : List String}
    (haligned : Aligned c.config.attributes joined c.shape) (hvalid : c.config.fault? = none) :
    Final c where
  startDocument := ⟨_, by rw [startDocument_of_reduced hphase, Outcome.error?_fail]⟩
  openInterval begin := ⟨_, by rw [openInterval_of_reduced hphase, Outcome.error?_fail]⟩
  recordElement kind id attributes :=
    ⟨_, by rw [recordElement_of_reduced hphase, Outcome.error?_fail]⟩
  interval tag attributes htag := by
    rw [startElement_of_isNamed attributes htag]
    exact (startInterval_of_reduced hphase attributes).2
  measured tag attributes kind hkind hrequests := by
    obtain ⟨cause, hfail⟩ := startMeasured_of_reduced hphase
      ((haligned.any_isRequested_iff attributes).2 hrequests) kind
    rw [startElement_of_kind attributes (Config.isNamed_eq_false_of_kind hvalid hkind) hkind, hfail]
    exact ⟨cause, rfl⟩
  other tag attributes htag hquiet := by
    rcases hkind : Kind.ofName? tag.localName with _ | kind
    · rw [startElement_of_other attributes htag hkind, Outcome.error?_ok]
    · have hnone : (attributes.any fun a => c.isRequested a.name.localName) = false := by
        rw [← Bool.not_eq_true, haligned.any_isRequested_iff]
        exact hquiet kind hkind
      rw [startElement_of_kind attributes htag hkind, startMeasured_of_quiet attributes hnone,
        Outcome.error?_ok]
  endElement tag := rfl
  endDocument := rfl

/-- **A joined collector is final.** From the first join on, in any history, the phase and the
intervals stay, a series changes only by a join of its name, and measurements are refused. -/
theorem run_final {c : Collector} (hnew : c.IsNew) (history operations : List Operation)
    (hphase : (run history c).phase = .reduced) :
    let joined := run history c
    let after := run operations joined
    after.phase = .reduced ∧ Kept (joinedIn operations joined) joined after ∧ Final after := by
  intro joined after
  have hkept : Kept (joinedIn operations joined) joined after := kept_run hphase operations
  have hafter : after.phase = .reduced := hkept.phase_eq.trans hphase
  obtain ⟨hvalid, hfresh⟩ := hnew.eq_fresh
  have hstart : Aligned c.config.attributes [] c.shape := by
    rw [hfresh]
    exact aligned_fresh c.config
  obtain ⟨hconfig, haligned⟩ := hstart.history history
  obtain ⟨hconfig', haligned'⟩ := haligned.history operations
  have hsame : after.config = c.config := hconfig'.trans hconfig
  rw [← hsame] at haligned'
  exact ⟨hafter, hkept, final_of_reduced hafter haligned' (by rw [hsame, hvalid])⟩

/-- A second document, behind which another series is joined. -/
def lateDocument : List Operation :=
  [.startDocument,
   .startElement (.ofLocal "interval") [⟨.ofLocal "begin", "5"⟩],
   .startElement (.ofLocal "edge") [⟨.ofLocal "speed", "1"⟩],
   .endDocument,
   .join ["density", "length"] .sum,
   .join ["density"] .sum,
   .recordElement .lane "l" [],
   .openInterval 6]

/-- Of the second document nothing is taken, and of its joins one is. -/
theorem run_final_lateDocument :
    (ofAttributes ["speed", "density"]).IsNew ∧
      let joined := run refusedHistory (ofAttributes ["speed", "density"])
      joined.phase = .reduced ∧ joinedIn lateDocument joined = ["density"] ∧
        (run lateDocument joined).phase = .reduced ∧
        Kept (joinedIn lateDocument joined) joined (run lateDocument joined) ∧
        Final (run lateDocument joined) := by
  refine ⟨.ofAttributes _, by decide +kernel, by decide +kernel, ?_⟩
  exact run_final (.ofAttributes _) refusedHistory lateDocument (by decide +kernel)

end IntervalDump.Collector
