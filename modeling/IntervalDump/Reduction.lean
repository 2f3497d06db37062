/-!
# Reductions

The two ways in which a series of snapshots is joined into one: the sum of the values of an element,
or their mean over the intervals that reported the element.
-/

namespace IntervalDump

/-- How the values that were observed for an id become one. -/
inductive Reduction where
  | sum
  | average
  deriving DecidableEq, Repr

namespace Reduction

def name : Reduction → String
  | .sum => "sum"
  | .average => "average"

/-- The reduction with this name, letter for letter. -/
def ofName? (name : String) : Option Reduction :=
  if name = "sum" then some .sum
  else if name = "average" then some .average
  else none

/-- A text that is not the name of a reduction. -/
structure Unknown where
  text : String
  deriving DecidableEq, Repr

def Unknown.message (unknown : Unknown) : String :=
  s!"Invalid reduction kind '{unknown.text}' (expected 'sum' or 'average')"

/-- The reduction of this name, or a refusal that repeats the name. -/
def parse (text : String) : Except Unknown Reduction :=
  match ofName? text with
  | some how => .ok how
  | none => .error ⟨text⟩

end Reduction

end IntervalDump
