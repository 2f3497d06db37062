import Std.Data.ExtTreeMap
/-!
# Snapshots and series

A snapshot holds the values of one attribute within one interval, by the ids of the elements that
reported it. It is sparse: an element that did not report the attribute has no entry. Snapshots
with the same entries are equal, and their entries are listed in the order of the ids.

A series is the history of an attribute: one snapshot for each interval.
-/

namespace IntervalDump

/-- Values by element id. -/
abbrev Snapshot := Std.ExtTreeMap String Float

/-- Snapshots, the latest one first. -/
structure Series where
  latestFirst : List Snapshot

namespace Series

/-- The series before the first interval. -/
def empty : Series :=
  ⟨[]⟩

/-- The series of one snapshot. -/
def single (snapshot : Snapshot) : Series :=
  ⟨[snapshot]⟩

/-- The snapshots in the order of their intervals. -/
def toList (series : Series) : List Snapshot :=
  series.latestFirst.reverse

/-- How many snapshots the series has. -/
def length (series : Series) : Nat :=
  series.latestFirst.length

/-- The series has no snapshot. -/
def isEmpty (series : Series) : Bool :=
  series.latestFirst.isEmpty

/-- Begins a snapshot for a new interval. -/
def extend (series : Series) : Series :=
  ⟨∅ :: series.latestFirst⟩

/-- Sets the value of an element in the latest snapshot, if there is one. -/
def record (id : String) (value : Float) (series : Series) : Series :=
  match series.latestFirst with
  | [] => series
  | latest :: earlier => ⟨latest.insert id value :: earlier⟩

/-- A series is known by its snapshots. -/
@[ext] theorem ext {s t : Series} (h : s.toList = t.toList) : s = t := by
  cases s
  cases t
  simpa [toList] using h

/-- A series of one snapshot has just this one. -/
@[simp] theorem toList_single (snapshot : Snapshot) : (single snapshot).toList = [snapshot] := rfl

/-- The snapshots are kept with the latest first. -/
@[simp] theorem reverse_toList (series : Series) : series.toList.reverse = series.latestFirst :=
  List.reverse_reverse _

/-- A new interval begins with nothing measured in it. -/
@[simp] theorem toList_extend (series : Series) : series.extend.toList = series.toList ++ [∅] := by
  simp [extend, toList]

/-- Counted either way round, the snapshots are as many. -/
@[simp] theorem length_toList (series : Series) : series.toList.length = series.length := by
  simp [toList, length]

/-- A measurement goes into the latest snapshot and adds none. -/
@[simp] theorem length_record (id : String) (value : Float) (series : Series) :
    (series.record id value).length = series.length := by
  unfold record length
  split <;> simp_all

/-- A series is empty if it has no snapshot. -/
@[simp] theorem isEmpty_eq_true {series : Series} : series.isEmpty = true ↔ series.length = 0 := by
  simp [isEmpty, length]

/-- Only the last snapshot takes a new value. -/
theorem toList_record {series : Series} {earlier : List Snapshot} {latest : Snapshot}
    (h : series.toList = earlier ++ [latest]) (id : String) (value : Float) :
    (series.record id value).toList = earlier ++ [latest.insert id value] := by
  have h' : series.latestFirst = latest :: earlier.reverse := by
    rw [← List.reverse_reverse series.latestFirst]
    exact (congrArg List.reverse h).trans (by simp)
  simp [record, toList, h']

end Series

end IntervalDump
