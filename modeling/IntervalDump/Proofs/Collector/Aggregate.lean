import Mathlib.Data.List.Induction
import IntervalDump.Aggregate
/-!
# Joining is done id by id

The two tables of a join are filled in one pass over all snapshots and meet only at the end, where
each total is divided by the count in its place. This file shows that **the aggregate of an id is
made of its own values alone** (`aggregate_eq`): their sum from zero on, in the order of the
snapshots, or this sum divided by their number.

Both tables are views of a third one, which nobody builds: the values that were seen of each id
(`Observed`). Its step is that of the tables (`Tallies.add_ofObserved`), and its run
(`Tallies.ofSnapshots_eq`) says why the places agree: both tables list the ids of this one.
-/

namespace IntervalDump

/-! ## The values of an element -/

/-- The values of an element, one for each snapshot that has it, in the order of the snapshots. -/
def valuesOf (id : String) (snapshots : List Snapshot) : List Float :=
  snapshots.filterMap (·[id]?)

/-- The sum of some values: from zero on, one after the other. -/
def total (values : List Float) : Float :=
  values.foldl (· + ·) 0

/-- What a reduction makes of the values of an element. -/
def Reduction.ofValues (how : Reduction) (values : List Float) : Float :=
  match how with
  | .sum => total values
  | .average => total values / Float.ofNat values.length

/-- The last value is added last. -/
theorem total_concat (values : List Float) (value : Float) :
    total (values ++ [value]) = total values + value := by
  rw [total, List.foldl_append, List.foldl_cons, List.foldl_nil, total]

/-- The values of an element among entries. -/
def valuesAmong (id : String) (entries : List (String × Float)) : List Float :=
  (entries.filter (·.1 == id)).map Prod.snd

/-- The values for an id come in the order of the entries. -/
theorem valuesAmong_append (id : String) (first second : List (String × Float)) :
    valuesAmong id (first ++ second) = valuesAmong id first ++ valuesAmong id second := by
  rw [valuesAmong, List.filter_append, List.map_append, valuesAmong, valuesAmong]

/-- One entry gives its value to its own id only. -/
theorem valuesAmong_singleton (id : String) (entry : String × Float) :
    valuesAmong id [entry] = if entry.1 = id then [entry.2] else [] := by
  by_cases h : entry.1 = id <;> simp [valuesAmong, h]

/-- Among entries of different elements there is one value at most. -/
theorem valuesAmong_of_mem {entries : List (String × Float)}
    (hdistinct : entries.Pairwise fun a b => a.1 ≠ b.1) {id : String} {value : Float}
    (h : (id, value) ∈ entries) : valuesAmong id entries = [value] := by
  obtain ⟨before, behind, rfl⟩ := List.append_of_mem h
  obtain ⟨-, hbehind, hcross⟩ := List.pairwise_append.mp hdistinct
  have hbefore : valuesAmong id before = [] := by
    rw [valuesAmong, List.map_eq_nil_iff, List.filter_eq_nil_iff]
    intro entry hentry
    simpa using hcross entry hentry _ List.mem_cons_self
  have hrest : valuesAmong id behind = [] := by
    rw [valuesAmong, List.map_eq_nil_iff, List.filter_eq_nil_iff]
    intro entry hentry
    simpa using (List.rel_of_pairwise_cons hbehind hentry).symm
  rw [← List.singleton_append, valuesAmong_append, valuesAmong_append, hbefore, hrest,
    valuesAmong_singleton, if_pos rfl]
  rfl

/-- A snapshot has at most one value for an id. -/
theorem valuesAmong_toList (id : String) (snapshot : Snapshot) :
    valuesAmong id snapshot.toList = snapshot[id]?.toList := by
  rcases h : snapshot[id]? with _ | value
  · rw [valuesAmong, List.filter_eq_nil_iff.mpr, List.map_nil, Option.toList_none]
    rintro ⟨name, value⟩ hentry hname
    obtain rfl : name = id := by simpa using hname
    rw [Std.ExtTreeMap.mem_toList_iff_getElem?_eq_some, h] at hentry
    contradiction
  · have hdistinct := Std.ExtTreeMap.distinct_keys_toList (t := snapshot)
    exact valuesAmong_of_mem (hdistinct.imp fun hne => mt Std.compare_eq_iff_eq.mpr hne)
      (Std.ExtTreeMap.mem_toList_iff_getElem?_eq_some.mpr h)

/-- The values in several snapshots are those of their entries in a row. -/
theorem valuesAmong_flatMap (id : String) (snapshots : List Snapshot) :
    valuesAmong id (snapshots.flatMap Std.ExtTreeMap.toList) = valuesOf id snapshots := by
  induction snapshots with
  | nil => rfl
  | cons snapshot snapshots ih =>
    rw [List.flatMap_cons, valuesAmong_append, valuesAmong_toList, ih, valuesOf, valuesOf,
      List.filterMap_cons]
    cases snapshot[id]? <;> rfl

/-- An element has as many values as there are snapshots with it. -/
theorem length_valuesOf (id : String) (snapshots : List Snapshot) :
    (valuesOf id snapshots).length = snapshots.countP (·.contains id) := by
  rw [valuesOf, List.length_filterMap_eq_countP]
  congr 1
  funext snapshot
  rw [Std.ExtTreeMap.contains_eq_isSome_getElem?]

/-- An id was observed if some snapshot has it. -/
theorem valuesOf_ne_nil_iff (id : String) (snapshots : List Snapshot) :
    valuesOf id snapshots ≠ [] ↔ ∃ snapshot ∈ snapshots, id ∈ snapshot := by
  rw [← List.length_pos_iff, length_valuesOf, List.countP_pos_iff]
  simp only [Std.ExtTreeMap.contains_iff_mem]

/-! ## The table of what was seen -/

/-- The values that were seen of each element, in order. -/
abbrev Observed := Std.ExtTreeMap String (List Float)

namespace Observed

/-- The observed values with one more, at the end of those for its id. -/
def add (observed : Observed) (entry : String × Float) : Observed :=
  observed.alter entry.1 fun values? => some (values?.getD [] ++ [entry.2])

/-- The values of some entries, each under its id. -/
def ofEntries (entries : List (String × Float)) : Observed :=
  entries.foldl add ∅

/-- One entry more is one observation more. -/
theorem ofEntries_concat (entries : List (String × Float)) (entry : String × Float) :
    ofEntries (entries ++ [entry]) = (ofEntries entries).add entry := by
  rw [ofEntries, List.foldl_append, List.foldl_cons, List.foldl_nil, ofEntries]

/-- An element that was never seen is not listed. -/
theorem getElem?_ofEntries (entries : List (String × Float)) (id : String) :
    (ofEntries entries)[id]? =
      if valuesAmong id entries = [] then none else some (valuesAmong id entries) := by
  induction entries using List.reverseRecOn with
  | nil => exact Std.ExtTreeMap.getElem?_empty
  | append_singleton entries entry ih =>
    rw [ofEntries_concat, add, Std.ExtTreeMap.getElem?_alter, valuesAmong_append,
      valuesAmong_singleton]
    by_cases hid : entry.1 = id
    · subst hid
      rw [if_pos Std.ReflCmp.compare_self, ih]
      by_cases hnone : valuesAmong entry.1 entries = [] <;> simp [hnone]
    · simp [hid, ih]

end Observed

namespace Tallies

/-- The tallies of what was seen. -/
def ofObserved (observed : Observed) : Tallies where
  totals := observed.map fun _ values => total values
  counts := observed.map fun _ values => values.length

/-- **One value** does to the tallies what it does to the table of what was seen. -/
theorem add_ofObserved (observed : Observed) (entry : String × Float) :
    (ofObserved observed).add entry = ofObserved (observed.add entry) := by
  rw [add, ofObserved, ofObserved, Observed.add]
  congr 1
  · ext1 id
    simp only [Std.ExtTreeMap.getElem?_alter, Std.ExtTreeMap.getElem?_map]
    split
    · cases observed[entry.1]? with
      | none => rfl
      | some values => exact congrArg some (total_concat values entry.2).symm
    · rfl
  · ext1 id
    simp only [Std.ExtTreeMap.getElem?_alter, Std.ExtTreeMap.getElem?_map]
    split
    · cases observed[entry.1]? <;> simp
    · rfl

/-- Adding entries to the totals is observing them. -/
theorem foldl_add_ofObserved (entries : List (String × Float)) (observed : Observed) :
    entries.foldl add (ofObserved observed) = ofObserved (entries.foldl Observed.add observed) := by
  induction entries generalizing observed with
  | nil => rfl
  | cons entry entries ih => rw [List.foldl_cons, List.foldl_cons, add_ofObserved, ih]

/-- Before the first entry, there are no totals. -/
theorem ofObserved_empty : ofObserved ∅ = empty :=
  rfl

/-- **All snapshots.** -/
theorem ofSnapshots_eq (snapshots : List Snapshot) :
    ofSnapshots snapshots =
      ofObserved (.ofEntries (snapshots.flatMap Std.ExtTreeMap.toList)) := by
  rw [Observed.ofEntries, ← foldl_add_ofObserved, ofObserved_empty, List.foldl_flatMap]
  rfl

/-! ## Division by place -/

/-- The places of both tables are those of the table of what was seen. -/
theorem zip_ofObserved (observed : Observed) :
    (ofObserved observed).totals.toList.zip (ofObserved observed).countsInOrder =
      observed.toList.map fun entry => ((entry.1, total entry.2), entry.2.length) := by
  rw [countsInOrder, ofObserved, Std.ExtTreeMap.toList_map, Std.ExtTreeMap.toList_map,
    List.map_map]
  exact List.zip_map' ..

/-- There are as many counts as totals, since both go over the ids in the same order. -/
theorem length_countsInOrder_ofObserved (observed : Observed) :
    (ofObserved observed).countsInOrder.length = (ofObserved observed).totals.toList.length := by
  rw [countsInOrder, ofObserved, Std.ExtTreeMap.toList_map, Std.ExtTreeMap.toList_map,
    List.length_map, List.length_map, List.length_map]

/-- Each total is divided by the count that stands at its place. -/
theorem divideEach_eq {totals : List (String × Float)} {counts : List Nat}
    (h : counts.length = totals.length) :
    divideEach totals counts =
      (totals.zip counts).map fun entry => (entry.1.1, entry.1.2 / Float.ofNat entry.2) := by
  fun_induction divideEach totals counts with
  | case1 id total totals count counts ih =>
    rw [List.zip_cons_cons, List.map_cons, ih (by simpa using h)]
  | case2 totals counts hne =>
    cases totals with
    | nil => rfl
    | cons entry totals =>
      cases counts with
      | nil => simp at h
      | cons count counts => exact absurd rfl (hne entry.1 entry.2 totals count counts rfl)

/-- A table is the one of its entries. -/
theorem ofList_toList (snapshot : Snapshot) : Std.ExtTreeMap.ofList snapshot.toList = snapshot := by
  ext1 id
  rcases h : snapshot[id]? with _ | value
  · rw [Std.ExtTreeMap.getElem?_ofList_of_contains_eq_false]
    rw [Std.ExtTreeMap.map_fst_toList_eq_keys, List.contains_eq_mem, decide_eq_false_iff_not,
      Std.ExtTreeMap.mem_keys, Std.ExtTreeMap.mem_iff_isSome_getElem?, h]
    exact Bool.false_ne_true
  · exact Std.ExtTreeMap.getElem?_ofList_of_mem Std.ReflCmp.compare_self
      Std.ExtTreeMap.distinct_keys_toList (Std.ExtTreeMap.mem_toList_iff_getElem?_eq_some.mpr h)

/-- **The totals and counts say all that was observed**, as far as a reduction asks. -/
theorem reduce_ofObserved (how : Reduction) (observed : Observed) :
    (ofObserved observed).reduce how = observed.map fun _ values => how.ofValues values := by
  cases how with
  | sum => rfl
  | average =>
    have hentries : divideEach (ofObserved observed).totals.toList
        (ofObserved observed).countsInOrder =
        (observed.map fun _ values => Reduction.average.ofValues values).toList := by
      rw [divideEach_eq (length_countsInOrder_ofObserved observed), zip_ofObserved, List.map_map,
        Std.ExtTreeMap.toList_map]
      rfl
    rw [reduce, means, hentries, ofList_toList]

end Tallies

/-- The values of all elements, by their ids. -/
theorem getElem?_observed (id : String) (snapshots : List Snapshot) :
    (Observed.ofEntries (snapshots.flatMap Std.ExtTreeMap.toList))[id]? =
      if valuesOf id snapshots = [] then none else some (valuesOf id snapshots) := by
  rw [Observed.getElem?_ofEntries, valuesAmong_flatMap]

/-- The value of an id in an aggregate. -/
theorem getElem?_aggregate (how : Reduction) (snapshots : List Snapshot) (id : String) :
    (aggregate how snapshots)[id]? =
      if valuesOf id snapshots = [] then none
      else some (how.ofValues (valuesOf id snapshots)) := by
  rw [aggregate, Tallies.ofSnapshots_eq, Tallies.reduce_ofObserved, Std.ExtTreeMap.getElem?_map,
    getElem?_observed]
  split <;> rfl

/-- **The aggregate of an id is made of its own values.** There is one for each id of the snapshots,
and it is the reduction of the values that the snapshots with this id hold, in their order. Where
totals are divided, every total stands in the place of the count of the same id, and this is the
number of the snapshots that have the id; so there is no division by zero. -/
theorem aggregate_eq (how : Reduction) (snapshots : List Snapshot) :
    (∀ id : String, id ∈ aggregate how snapshots ↔ ∃ snapshot ∈ snapshots, id ∈ snapshot) ∧
      (∀ id : String, (aggregate how snapshots)[id]? =
        if valuesOf id snapshots = [] then none
        else some (how.ofValues (valuesOf id snapshots))) ∧
      (Tallies.ofSnapshots snapshots).countsInOrder.length =
        (Tallies.ofSnapshots snapshots).totals.toList.length ∧
      ∀ place ∈ (Tallies.ofSnapshots snapshots).totals.toList.zip
          (Tallies.ofSnapshots snapshots).countsInOrder,
        (Tallies.ofSnapshots snapshots).counts[place.1.1]? = some place.2 ∧
          place.1.2 = total (valuesOf place.1.1 snapshots) ∧
          place.2 = snapshots.countP (·.contains place.1.1) ∧ 0 < place.2 := by
  refine ⟨?_, getElem?_aggregate how snapshots, ?_, ?_⟩
  · intro id
    rw [← valuesOf_ne_nil_iff, Std.ExtTreeMap.mem_iff_isSome_getElem?, getElem?_aggregate]
    by_cases hnone : valuesOf id snapshots = [] <;> simp [hnone]
  · rw [Tallies.ofSnapshots_eq, Tallies.length_countsInOrder_ofObserved]
  · rw [Tallies.ofSnapshots_eq, Tallies.zip_ofObserved]
    intro place hplace
    obtain ⟨⟨id, values⟩, hentry, rfl⟩ := List.mem_map.mp hplace
    rw [Std.ExtTreeMap.mem_toList_iff_getElem?_eq_some] at hentry
    have hcount : (Tallies.ofObserved
        (.ofEntries (snapshots.flatMap Std.ExtTreeMap.toList))).counts[id]? =
          some values.length := by
      rw [Tallies.ofObserved, Std.ExtTreeMap.getElem?_map, hentry, Option.map_some]
    rw [getElem?_observed, Option.ite_none_left_eq_some] at hentry
    obtain ⟨hne, hvalues⟩ := hentry
    obtain rfl := Option.some.inj hvalues
    exact ⟨hcount, rfl, length_valuesOf id snapshots, List.length_pos_iff.mpr hne⟩

/-- Three snapshots, the last one without one of the two ids. -/
def sparseSnapshots : List Snapshot :=
  [Std.ExtTreeMap.ofList [("gone", (2 : Float)), ("stays", 1)],
    Std.ExtTreeMap.ofList [("gone", (4 : Float)), ("stays", 1)],
    Std.ExtTreeMap.ofList [("stays", (1 : Float))]]

/-- The mean of the id that the last snapshot does not have is taken over the other two. -/
theorem aggregate_eq_sparseSnapshots :
    valuesOf "gone" sparseSnapshots = [2, 4] ∧
      (aggregate .average sparseSnapshots)["gone"]? = some 3 ∧
      ((Tallies.ofSnapshots sparseSnapshots).totals.toList.zip
        (Tallies.ofSnapshots sparseSnapshots).countsInOrder)[0]? = some (("gone", 6), 2) ∧
      (Tallies.ofSnapshots sparseSnapshots).counts["gone"]? = some 2 ∧
      2 = sparseSnapshots.countP (·.contains "gone") := by
  obtain ⟨-, hget, -, hplaces⟩ := aggregate_eq .average sparseSnapshots
  have hvalues : valuesOf "gone" sparseSnapshots = [2, 4] := by decide +kernel
  have hplace : ((Tallies.ofSnapshots sparseSnapshots).totals.toList.zip
      (Tallies.ofSnapshots sparseSnapshots).countsInOrder)[0]? = some (("gone", 6), 2) := by
    decide +kernel
  obtain ⟨hcount, -, hnumber, -⟩ := hplaces _ (List.mem_of_getElem? hplace)
  refine ⟨hvalues, ?_, hplace, hcount, hnumber⟩
  rw [hget, hvalues]
  decide +kernel

end IntervalDump
