import IntervalDump.Proofs.Collector.Replay
/-!
# A join is all or nothing

Whatever happened to a collector, a join of names is refused as a whole or done as a whole
(`join_settles`).

* **Refused** (`FirstUnrequested`): if a name was not requested, the first such name is the error,
  and nothing was done for the names before it.
* **Done** (`JoinsTo`): otherwise the series of each name is replaced by its aggregate, and nothing
  else is touched but the phase.

All names are looked up before any series is touched; what the loop over the names then does to each
entry of the table is `each_joinSeries`.
-/

namespace IntervalDump

/-- Every other text is refused, and named in the refusal. -/
theorem Reduction.parse_of_ne {text : String} (hsum : text ≠ "sum") (haverage : text ≠ "average") :
    Reduction.parse text = .error ⟨text⟩ := by
  simp only [Reduction.parse, Reduction.ofName?, if_neg hsum, if_neg haverage]

/-- Each reduction is read under its own name. -/
theorem Reduction.parse_name (how : Reduction) : Reduction.parse how.name = .ok how := by
  cases how <;> rfl

namespace Collector

/-- The name was not requested; those before it were. -/
def FirstUnrequested (config : Config) (names : List String) (name : String) : Prop :=
  name ∉ config.attributes ∧ ∃ earlier later, names = earlier ++ name :: later ∧
    ∀ other ∈ earlier, other ∈ config.attributes

/-- What a join of these names makes of a collector. -/
structure JoinsTo (names : List String) (how : Reduction) (before after : Collector) : Prop where
  config_eq : after.config = before.config
  begins_eq : after.begins = before.begins
  insideInterval_eq : after.insideInterval = before.insideInterval
  phase_eq : after.phase = if names = [] then before.phase else .reduced
  /-- A name that is listed once has the aggregate of its snapshots as only snapshot. -/
  once : ∀ name : String, names.count name = 1 → ∃ series, before.series[name]? = some series ∧
    after.series[name]? = some (.single (aggregate how series.toList))
  others : ∀ name : String, name ∉ names → after.series[name]? = before.series[name]?

/-- A collector takes as requested what its configuration asks for. -/
theorem IsReachable.isRequested_iff {c : Collector} (h : c.IsReachable) (name : String) :
    c.isRequested name = true ↔ name ∈ c.config.attributes := by
  obtain ⟨_, haligned⟩ := h.exists_aligned
  exact haligned.isRequested_iff name

/-- A requested attribute has a series, of whatever length. -/
theorem IsReachable.exists_series {c : Collector} (h : c.IsReachable) {name : String}
    (hname : name ∈ c.config.attributes) : ∃ series, c.series[name]? = some series := by
  rw [← h.isRequested_iff, isRequested, Std.ExtTreeMap.contains_eq_isSome_getElem?] at hname
  exact Option.isSome_iff_exists.1 hname

/-! ## Refusing and joining -/

/-- The collector behind the loop over these names. Only without names the phase stays. -/
def markJoined (names : List String) (c : Collector) : Collector :=
  if names.isEmpty then c else { c with phase := .reduced }

section Join

variable {c : Collector} (h : c.IsReachable) {names : List String}
include h

/-- The first name that is looked up in vain is the first one that was not requested. -/
theorem find?_unrequested_iff (name : String) :
    (names.find? fun name => !c.isRequested name) = some name ↔
      FirstUnrequested c.config names name := by
  have hnot (other : String) : (!c.isRequested other) = true ↔ other ∉ c.config.attributes := by
    rw [Bool.not_eq_true', ← Bool.not_eq_true, h.isRequested_iff]
  have hnotnot (other : String) :
      (!!c.isRequested other) = true ↔ other ∈ c.config.attributes := by
    rw [Bool.not_not, h.isRequested_iff]
  simp only [List.find?_eq_some_iff_append, hnot, hnotnot, FirstUnrequested]

/-- If no name is looked up in vain, then all were requested. -/
theorem find?_unrequested_eq_none_iff :
    (names.find? fun name => !c.isRequested name) = none ↔
      ∀ name ∈ names, name ∈ c.config.attributes := by
  simp only [List.find?_eq_none, Bool.not_eq_true', Bool.not_eq_false, h.isRequested_iff]

/-- **A name that was not requested fails a join before it begins.** -/
theorem join_of_firstUnrequested {name : String} (hname : FirstUnrequested c.config names name)
    (how : Reduction) : c.join names how = .fail (.unknownAttribute name) c := by
  simp only [join, (find?_unrequested_iff h name).2 hname]

/-- If all names are requested, a join is the loop over them, and then the phase changes. -/
theorem join_eq_of_requested (hnames : ∀ name ∈ names, name ∈ c.config.attributes)
    (how : Reduction) :
    c.join names how = (Outcome.each (joinSeries how) names c).map (markJoined names) := by
  simp only [join, (find?_unrequested_eq_none_iff h).2 hnames]
  rfl

/-- The table behind a join: each series is replaced as often as its name is listed. -/
theorem join_of_requested (hnames : ∀ name ∈ names, name ∈ c.config.attributes)
    (how : Reduction) :
    ∃ series : Std.ExtTreeMap String Series,
      (c.join names how).error? = none ∧
        (c.join names how).state =
          { c with series, phase := if names = [] then c.phase else .reduced } ∧
        ∀ name : String, series[name]? =
          c.series[name]?.map (Series.joined how)^[names.count name] := by
  obtain ⟨series, hstate, hok, hseries⟩ := each_joinSeries how names c
  rw [join_eq_of_requested h hnames how, Outcome.error?_map, Outcome.state_map, hstate]
  refine ⟨series, hok, ?_, hseries⟩
  cases names <;> rfl

/-- A join succeeds if all its names were requested. -/
theorem error?_join_eq_none_iff (how : Reduction) :
    (c.join names how).error? = none ↔ ∀ name ∈ names, name ∈ c.config.attributes := by
  constructor
  · intro hok
    rw [← find?_unrequested_eq_none_iff h]
    rcases hfind : names.find? fun name => !c.isRequested name with _ | name
    · rfl
    · rw [join_of_firstUnrequested h ((find?_unrequested_iff h name).1 hfind)] at hok
      contradiction
  · intro hnames
    obtain ⟨_, hok, -⟩ := join_of_requested h hnames how
    exact hok

/-- Each requested name is joined, and all others are left. -/
theorem joinsTo_of_requested (hnames : ∀ name ∈ names, name ∈ c.config.attributes)
    (how : Reduction) : JoinsTo names how c (c.join names how).state := by
  obtain ⟨table, -, hstate, htable⟩ := join_of_requested h hnames how
  rw [hstate]
  refine ⟨rfl, rfl, rfl, rfl, ?_, ?_⟩
  · intro name hcount
    have hmem : name ∈ names := List.count_pos_iff.1 (hcount ▸ Nat.one_pos)
    obtain ⟨series, hseries⟩ := h.exists_series (hnames name hmem)
    refine ⟨series, hseries, ?_⟩
    show table[name]? = _
    rw [htable, hcount, hseries]
    rfl
  · intro name hname
    show table[name]? = _
    rw [htable, List.count_eq_zero.2 hname, Function.iterate_zero, Option.map_id_apply]

end Join

/-! ## All or nothing -/

/-- **A join is all or nothing, and touches only what it names.** It succeeds if all names were
requested. If not, the collector is left as it was, whatever names stand before the first one that
was not requested; and it is left as it was, whatever the names are, if the reduction is given by a
text that is not the name of one. -/
theorem join_settles {c : Collector} (h : c.IsReachable) (names : List String) (how : Reduction) :
    ((c.join names how).error? = none ↔ ∀ name ∈ names, name ∈ c.config.attributes) ∧
      ((c.join names how).error? = none → JoinsTo names how c (c.join names how).state) ∧
      (∀ error, (c.join names how).error? = some error → (c.join names how).state = c ∧
        ∃ name, FirstUnrequested c.config names name ∧ error = .unknownAttribute name) ∧
      (∀ text, text ≠ "sum" → text ≠ "average" →
        c.joinNamed names text = .fail (.unknownReduction ⟨text⟩) c) ∧
      c.joinNamed names how.name = c.join names how := by
  refine ⟨error?_join_eq_none_iff h how, ?_, ?_, ?_, ?_⟩
  · intro hok
    exact joinsTo_of_requested h ((error?_join_eq_none_iff h how).1 hok) how
  · intro error herror
    rcases hfind : names.find? fun name => !c.isRequested name with _ | name
    · have hok := (error?_join_eq_none_iff h how).2 ((find?_unrequested_eq_none_iff h).1 hfind)
      rw [hok] at herror
      contradiction
    · have hname := (find?_unrequested_iff h name).1 hfind
      rw [join_of_firstUnrequested h hname] at herror ⊢
      exact ⟨rfl, name, hname, (Option.some.inj herror).symm⟩
  · intro text hsum haverage
    simp only [joinNamed, Reduction.parse_of_ne hsum haverage]
  · simp only [joinNamed, Reduction.parse_name]

/-- Two intervals, of which only the first one has a measurement. -/
def oneMeasurement : List Operation :=
  [.openInterval 0,
   .recordElement .edge "e" [⟨.ofLocal "speed", "1"⟩, ⟨.ofLocal "density", "2"⟩],
   .openInterval 1]

/-- A name behind a requested one is enough to refuse the join of both. -/
theorem join_settles_oneMeasurement :
    let c := run oneMeasurement (ofAttributes ["speed", "density"])
    c.IsReachable ∧
      (c.join ["density", "length", "size"] .sum).error? = some (.unknownAttribute "length") ∧
      (c.join ["density", "length", "size"] .sum).state = c ∧
      (c.join ["density"] .average).error? = none ∧
      JoinsTo ["density"] .average c (c.join ["density"] .average).state := by
  intro c
  have hreachable : c.IsReachable := ⟨_, oneMeasurement, .ofAttributes ["speed", "density"], rfl⟩
  have herror : (c.join ["density", "length", "size"] .sum).error? =
      some (.unknownAttribute "length") := by decide +kernel
  have hok : (c.join ["density"] .average).error? = none := by decide +kernel
  obtain ⟨-, -, hrefused, -⟩ := join_settles hreachable ["density", "length", "size"] .sum
  obtain ⟨-, hjoined, -⟩ := join_settles hreachable ["density"] .average
  exact ⟨hreachable, herror, (hrefused _ herror).1, hok, hjoined hok⟩

end Collector

end IntervalDump
