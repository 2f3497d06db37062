import IntervalDump.Proofs.Collector.Aggregate
import IntervalDump.Proofs.Collector.Joining
import IntervalDump.Proofs.Collector.Reduced
import IntervalDump.Proofs.Decimal.Neutral
/-!
# Joins in another order, in parts and again

What a join leaves does not depend on how the names are put (`join_rearranged`).

* **Order**: each series is replaced as often as its name is listed, wherever that is, so the table
  is the same for every order of the names.
* **Parts** (`join_append`): the loop over the names goes on behind the first part as if nothing had
  been between, since it does not look at the phase.
* **Repetition**: a joined series has one snapshot, and joining it again, in whichever way, adds
  each of its values to zero and divides it by one (`aggregate_singleton`). This gives the same
  numbers (`Snapshot.Agrees`), and doing it once more changes nothing.
-/

namespace IntervalDump

/-! ## Snapshots that agree -/

namespace Snapshot

/-- The same ids with the same numbers. -/
structure Agrees (s t : Snapshot) : Prop where
  mem_iff : ∀ id : String, id ∈ t ↔ id ∈ s
  sameNumber : ∀ (id : String) x y, s[id]? = some x → t[id]? = some y → SameNumber x y

/-- Each value added to zero. -/
def settled (s : Snapshot) : Snapshot :=
  s.map fun _ value => 0 + value

/-- To settle a snapshot is to add each of its values to zero. -/
theorem getElem?_settled (s : Snapshot) (id : String) :
    s.settled[id]? = s[id]?.map fun value => 0 + value :=
  Std.ExtTreeMap.getElem?_map

/-- A snapshot that was settled stays as it is. -/
theorem settled_settled (s : Snapshot) : s.settled.settled = s.settled := by
  ext1 id
  rw [getElem?_settled, getElem?_settled, Option.map_map]
  congr 1
  funext value
  exact zero_add_zero_add value

/-- A snapshot agrees with itself. -/
theorem agrees_refl (s : Snapshot) : s.Agrees s := by
  refine ⟨fun _ => Iff.rfl, ?_⟩
  intro id x y hx hy
  obtain rfl := Option.some.inj (hx.symm.trans hy)
  exact sameNumber_refl x

/-- A snapshot agrees with what it settles to. -/
theorem agrees_settled (s : Snapshot) : s.Agrees s.settled := by
  constructor
  · intro id
    rw [Std.ExtTreeMap.mem_iff_isSome_getElem?, getElem?_settled, Option.isSome_map,
      ← Std.ExtTreeMap.mem_iff_isSome_getElem?]
  · intro id x y hx hy
    rw [getElem?_settled, hx] at hy
    obtain rfl := Option.some.inj hy
    exact sameNumber_zero_add x

end Snapshot

/-- A single value is added to zero, and divided by one if at all. -/
theorem Reduction.ofValues_singleton (how : Reduction) (value : Float) :
    how.ofValues [value] = 0 + value := by
  cases how with
  | sum => rfl
  | average => exact div_one_eq (0 + value)

/-- **A single snapshot** is joined into the one with the same numbers. -/
theorem aggregate_singleton (how : Reduction) (s : Snapshot) : aggregate how [s] = s.settled := by
  ext1 id
  rw [getElem?_aggregate, Snapshot.getElem?_settled, valuesOf, List.filterMap_cons]
  rcases s[id]? with _ | value
  · rfl
  · exact congrArg some (how.ofValues_singleton value)

namespace Series

/-- The snapshot that a series was joined into is its only one, as it was then or settled. -/
def StaysJoined (snapshot : Snapshot) (series : Series) : Prop :=
  series = .single snapshot ∨ series = .single snapshot.settled

/-- A joined series may be joined once more. -/
theorem StaysJoined.again {snapshot : Snapshot} {series : Series}
    (h : series.StaysJoined snapshot) (how : Reduction) :
    (series.joined how).StaysJoined snapshot := by
  right
  rcases h with rfl | rfl
  · rw [Series.joined, toList_single, aggregate_singleton]
  · rw [Series.joined, toList_single, aggregate_singleton, Snapshot.settled_settled]

/-- A joined series may be joined any number of times. -/
theorem StaysJoined.iterate {snapshot : Snapshot} {series : Series}
    (h : series.StaysJoined snapshot) (how : Reduction) (n : Nat) :
    ((joined how)^[n] series).StaysJoined snapshot := by
  induction n with
  | zero => exact h
  | succ n ih =>
    rw [Function.iterate_succ_apply']
    exact ih.again how

/-- However often a series is joined at once, the aggregate of its snapshots stays. -/
theorem staysJoined_iterate (how : Reduction) (series : Series) {n : Nat} (hn : n ≠ 0) :
    ((joined how)^[n] series).StaysJoined (aggregate how series.toList) := by
  obtain ⟨n, rfl⟩ := Nat.exists_eq_succ_of_ne_zero hn
  rw [Function.iterate_succ_apply]
  exact StaysJoined.iterate (.inl rfl) how n

/-- A joined series has one snapshot, which agrees with the first one. -/
theorem StaysJoined.exists_agrees {snapshot : Snapshot} {series : Series}
    (h : series.StaysJoined snapshot) :
    ∃ again, series = .single again ∧ snapshot.Agrees again := by
  rcases h with rfl | rfl
  · exact ⟨_, rfl, snapshot.agrees_refl⟩
  · exact ⟨_, rfl, snapshot.agrees_settled⟩

end Series

namespace Collector

/-! ## Names in two parts -/

/-- Which names count as joined does not matter to the joining of a series. -/
theorem joinSeries_markJoined (names : List String) (how : Reduction) (name : String)
    (c : Collector) :
    joinSeries how name (markJoined names c) =
      (joinSeries how name c).map (markJoined names) := by
  cases names with
  | nil => rfl
  | cons =>
    show joinSeries how name { c with phase := .reduced } = _
    unfold joinSeries
    cases c.series[name]? <;> rfl

/-- Names may be marked in two parts. -/
theorem markJoined_append (first second : List String) (c : Collector) :
    markJoined (first ++ second) c = markJoined second (markJoined first c) := by
  cases first with
  | nil => rfl
  | cons => cases second <;> rfl

section Rearranged

variable {c : Collector} (h : c.IsReachable) (how : Reduction)
include h

/-- The table does not tell in which order the names were listed. -/
theorem state_join_perm {names names' : List String}
    (hnames : ∀ name ∈ names, name ∈ c.config.attributes) (hperm : names'.Perm names) :
    (c.join names' how).error? = none ∧
      (c.join names' how).state = (c.join names how).state := by
  have hnames' : ∀ name ∈ names', name ∈ c.config.attributes := by
    intro name hname
    exact hnames name (hperm.mem_iff.1 hname)
  obtain ⟨series, -, hstate, hseries⟩ := join_of_requested h hnames how
  obtain ⟨series', hok, hstate', hseries'⟩ := join_of_requested h hnames' how
  have htable : series' = series := by
    ext1 name
    rw [hseries, hseries', hperm.count_eq]
  have hempty : names' = [] ↔ names = [] := by
    rw [← List.length_eq_zero_iff, hperm.length_eq, List.length_eq_zero_iff]
  refine ⟨hok, ?_⟩
  rw [hstate, hstate', htable]
  simp only [hempty]

/-- **A join of two lists of names** is the join of the one and then of the other, notices and
all. -/
theorem join_append {first second : List String}
    (hfirst : ∀ name ∈ first, name ∈ c.config.attributes)
    (hsecond : ∀ name ∈ second, name ∈ c.config.attributes) :
    c.join (first ++ second) how = (c.join first how).andThen (join second how) := by
  have hboth : ∀ name ∈ first ++ second, name ∈ c.config.attributes := by
    intro name hname
    exact (List.mem_append.1 hname).elim (hfirst name) (hsecond name)
  obtain ⟨series, hok, hstate, -⟩ := join_of_requested h hfirst how
  have hreachable : (c.join first how).state.IsReachable := h.run [.join first how]
  have hsecond' : ∀ name ∈ second, name ∈ (c.join first how).state.config.attributes := by
    rw [hstate]
    exact hsecond
  have hthen : join second how (c.join first how).state =
      (Outcome.each (joinSeries how) second (c.join first how).state).map (markJoined second) :=
    join_eq_of_requested hreachable hsecond' how
  have hmark : markJoined (first ++ second) = markJoined second ∘ markJoined first :=
    funext (markJoined_append first second)
  have hlater (s : Collector) :
      Outcome.each (joinSeries how) second (markJoined first s) =
        (Outcome.each (joinSeries how) second s).map (markJoined first) :=
    Outcome.each_map_state (joinSeries_markJoined first how) second s
  -- marking the names does not change what the second join does to the series, so it can be put off
  symm
  calc (c.join first how).andThen (join second how)
      = (c.join first how).andThen fun s =>
          (Outcome.each (joinSeries how) second s).map (markJoined second) :=
        Outcome.andThen_congr hthen
    _ = ((c.join first how).andThen (Outcome.each (joinSeries how) second)).map
          (markJoined second) := Outcome.andThen_map_of_ok hok _ _
    _ = (((Outcome.each (joinSeries how) first c).andThen
          (Outcome.each (joinSeries how) second)).map (markJoined first)).map
            (markJoined second) := by
        rw [join_eq_of_requested h hfirst, Outcome.map_andThen hlater]
    _ = (Outcome.each (joinSeries how) (first ++ second) c).map (markJoined (first ++ second)) := by
        rw [Outcome.each_append, hmark]
        rfl
    _ = c.join (first ++ second) how := (join_eq_of_requested h hboth how).symm

end Rearranged

/-! ## Joining again -/

/-- Each series is joined some number of times, as its name may stand in a join more than once. -/
theorem exists_iterate_join (names : List String) (how : Reduction) (c : Collector)
    (name : String) : ∃ n,
      (c.join names how).state.series[name]? = c.series[name]?.map (Series.joined how)^[n] := by
  unfold join
  split
  · refine ⟨0, ?_⟩
    rw [Outcome.state_fail, Function.iterate_zero, Option.map_id_apply]
  · obtain ⟨series, hstate, -, hseries⟩ := each_joinSeries how names c
    refine ⟨names.count name, ?_⟩
    rw [Outcome.state_map, hstate]
    split
    · exact hseries name
    · exact hseries name

/-- Behind a join, all that an operation does to a series is to join it again, if anything. -/
theorem exists_iterate_apply {c : Collector} (hphase : c.phase = .reduced) (operation : Operation)
    (name : String) : ∃ how n,
      (operation.apply c).state.series[name]? = c.series[name]?.map (Series.joined how)^[n] := by
  by_cases hname : name ∈ operation.names
  · cases operation with
    | join names how => exact ⟨how, exists_iterate_join names how c name⟩
    | joinNamed names text =>
      simp only [Operation.apply, joinNamed]
      cases Reduction.parse text with
      | error unknown =>
        refine ⟨.sum, 0, ?_⟩
        rw [Outcome.state_fail, Function.iterate_zero, Option.map_id_apply]
      | ok how => exact ⟨how, exists_iterate_join names how c name⟩
    | _ => exact absurd hname List.not_mem_nil
  · refine ⟨.sum, 0, ?_⟩
    have hjoined : name ∉ operation.joined c := by
      unfold Operation.joined
      split
      · exact hname
      · exact List.not_mem_nil
    rw [(kept_apply hphase operation).series_eq name hjoined, Function.iterate_zero,
      Option.map_id_apply]

/-- **A joined series stays joined**, whatever the collector is asked to do. -/
theorem staysJoined_run {c : Collector} (hphase : c.phase = .reduced) {name : String}
    {snapshot : Snapshot} {series : Series} (hseries : c.series[name]? = some series)
    (h : series.StaysJoined snapshot) (operations : List Operation) :
    ∃ series', (run operations c).series[name]? = some series' ∧
      series'.StaysJoined snapshot := by
  induction operations generalizing c series with
  | nil => exact ⟨series, hseries, h⟩
  | cons operation operations ih =>
    obtain ⟨how, n, happly⟩ := exists_iterate_apply hphase operation name
    rw [hseries, Option.map_some] at happly
    have hphase' : (operation.apply c).state.phase = .reduced :=
      (kept_apply hphase operation).phase_eq.trans hphase
    exact ih hphase' happly (h.iterate how n)

/-- **Order, grouping and repetition of the names do not matter.** A join of requested names leaves
the same collector for every order of them, and the same one as a join of the first names and then
of the others. The only snapshot that it leaves for a name has the numbers of the aggregate, however
often the name is listed; and these are the numbers of the only snapshot at any later time, in
whichever way the name is joined again. -/
theorem join_rearranged {c : Collector} (h : c.IsReachable) (how : Reduction)
    {names : List String} (hnames : ∀ name ∈ names, name ∈ c.config.attributes) :
    (∀ names', names'.Perm names → (c.join names' how).error? = none ∧
        (c.join names' how).state = (c.join names how).state) ∧
      (∀ first second, names = first ++ second →
        c.join names how = (c.join first how).andThen (join second how)) ∧
      ∀ name ∈ names, ∀ operations,
        let joined := (c.join names how).state
        ∃ series first again, c.series[name]? = some series ∧
          joined.series[name]? = some (.single first) ∧
          (run operations joined).series[name]? = some (.single again) ∧
          (aggregate how series.toList).Agrees first ∧ first.Agrees again := by
  refine ⟨fun names' => state_join_perm h how hnames, ?_, ?_⟩
  · rintro first second rfl
    exact join_append h how (fun name hname => hnames name (List.mem_append_left second hname))
      fun name hname => hnames name (List.mem_append_right first hname)
  · intro name hname operations joined
    obtain ⟨series, hseries⟩ := h.exists_series (hnames name hname)
    obtain ⟨table, -, hstate, htable⟩ := join_of_requested h hnames how
    -- the name is one of the names, so the join is not empty
    have hphase : joined.phase = .reduced := by
      show (c.join names how).state.phase = _
      rw [hstate]
      exact if_neg (List.ne_nil_of_mem hname)
    have hjoined : joined.series[name]? = some ((Series.joined how)^[names.count name] series) := by
      show (c.join names how).state.series[name]? = _
      rw [hstate]
      show table[name]? = _
      rw [htable, hseries, Option.map_some]
    -- joined at least once, and from there on joined as often as anyone likes
    have hstays := Series.staysJoined_iterate how series (List.count_pos_iff.2 hname).ne'
    obtain ⟨first, hfirst, hagrees⟩ := hstays.exists_agrees
    rw [hfirst] at hjoined
    obtain ⟨series', hseries', hstays'⟩ := staysJoined_run hphase hjoined (.inl rfl) operations
    obtain ⟨again, rfl, hagrees'⟩ := hstays'.exists_agrees
    exact ⟨series, first, again, hseries, hjoined, hseries', hagrees, hagrees'⟩

/-- The mean of these two measurements is rounded to a negative zero. -/
def tinyMeasurements : List Operation :=
  [.openInterval 0,
   .recordElement .edge "e" [⟨.ofLocal "speed", "-0"⟩],
   .openInterval 1,
   .recordElement .edge "e" [⟨.ofLocal "speed", "-5e-324"⟩]]

/-- The bits of the number of the edge in the snapshots of its speed. -/
def speedBits (c : Collector) : Option (List (Option UInt64)) :=
  c.series["speed"]?.map fun series => series.toList.map fun s => s["e"]?.map Float.toBits

/-- Joined again it is a positive zero, which is the same number. -/
theorem join_rearranged_tinyMeasurements :
    let c := run tinyMeasurements (ofAttributes ["speed", "density"])
    let joined := (c.join ["speed", "density"] .average).state
    c.IsReachable ∧ (∀ name ∈ ["speed", "density"], name ∈ c.config.attributes) ∧
      (c.join ["density", "speed"] .average).state = joined ∧
      c.join ["speed", "density"] .average =
        (c.join ["speed"] .average).andThen (join ["density"] .average) ∧
      speedBits joined = some [some 0x8000000000000000] ∧
      speedBits (run [.join ["speed"] .sum] joined) = some [some 0] ∧
      ∃ first again, joined.series["speed"]? = some (.single first) ∧
        (run [.join ["speed"] .sum] joined).series["speed"]? = some (.single again) ∧
        first.Agrees again := by
  intro c joined
  have hreachable : c.IsReachable := ⟨_, tinyMeasurements, .ofAttributes ["speed", "density"], rfl⟩
  have hnames : ∀ name ∈ ["speed", "density"], name ∈ c.config.attributes := by decide +kernel
  obtain ⟨hperm, happend, hagain⟩ := join_rearranged hreachable .average hnames
  obtain ⟨_, first, again, -, hfirst, hlater, -, hagrees⟩ :=
    hagain "speed" List.mem_cons_self [.join ["speed"] .sum]
  exact ⟨hreachable, hnames, (hperm _ (.swap ..)).2, happend ["speed"] ["density"] rfl,
    by decide +kernel, by decide +kernel, first, again, hfirst, hlater, hagrees⟩

end Collector

end IntervalDump
