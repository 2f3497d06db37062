import IntervalDump.Snapshot
import IntervalDump.Reduction
/-!
# Aggregates: many snapshots joined into one

`aggregate` joins snapshots id by id. One pass over the snapshots keeps two tables, the totals of the
values of each id and the numbers of these values; an average divides the one by the other, place by
place, so it is taken over the intervals that reported the id and over no others. Totals begin at
zero and grow in the order of the intervals, which fixes every rounding.
-/

namespace IntervalDump

/-- The totals of the values of each element, and the numbers of its values. -/
structure Tallies where
  totals : Snapshot
  counts : Std.ExtTreeMap String Nat

namespace Tallies

/-- Before anything was observed. -/
def empty : Tallies :=
  ⟨∅, ∅⟩

/-- Adds one value of an element. -/
def add (tallies : Tallies) (entry : String × Float) : Tallies where
  totals := tallies.totals.alter entry.1 fun total? => some (total?.getD 0 + entry.2)
  counts := tallies.counts.alter entry.1 fun count? => some (count?.getD 0 + 1)

/-- Adds the values of one snapshot. -/
def addSnapshot (tallies : Tallies) (snapshot : Snapshot) : Tallies :=
  snapshot.toList.foldl add tallies

/-- The tallies of all ids over the snapshots. -/
def ofSnapshots (snapshots : List Snapshot) : Tallies :=
  snapshots.foldl addSnapshot empty

/-- Divides each total by the count in its place. -/
def divideEach : List (String × Float) → List Nat → List (String × Float)
  | (id, total) :: totals, count :: counts =>
    (id, total / Float.ofNat count) :: divideEach totals counts
  | totals, _ => totals

/-- The numbers of values, in the order of the ids. -/
def countsInOrder (tallies : Tallies) : List Nat :=
  tallies.counts.toList.map Prod.snd

/-- The means of the values of each element. -/
def means (tallies : Tallies) : Snapshot :=
  .ofList (divideEach tallies.totals.toList tallies.countsInOrder)

/-- What a reduction makes of tallies. -/
def reduce (how : Reduction) (tallies : Tallies) : Snapshot :=
  match how with
  | .sum => tallies.totals
  | .average => tallies.means

end Tallies

/-- Joins snapshots into one. -/
def aggregate (how : Reduction) (snapshots : List Snapshot) : Snapshot :=
  (Tallies.ofSnapshots snapshots).reduce how

end IntervalDump
