/-!
# Element kinds

The two kinds of network elements that carry measurements, `edge` and `lane`. The tag of an element
in a dump is the name of its kind, letter for letter.
-/

namespace IntervalDump

/-- The kinds of elements that can be measured. -/
inductive Kind where
  | edge
  | lane
  deriving DecidableEq, Repr

namespace Kind

/-- Every kind, in the order in which they are listed. -/
def all : List Kind :=
  [.edge, .lane]

def name : Kind → String
  | .edge => "edge"
  | .lane => "lane"

/-- The kind with this name. -/
def ofName? (name : String) : Option Kind :=
  if name = "edge" then some .edge
  else if name = "lane" then some .lane
  else none

/-- A kind is known by its own name and no other. -/
theorem ofName?_eq_some {name : String} {kind : Kind} :
    ofName? name = some kind ↔ name = kind.name := by
  unfold ofName?
  cases kind <;> split <;> rename_i h <;> try split
  all_goals simp_all [Kind.name]

/-- A text that is not the name of a kind. -/
structure Unknown where
  text : String
  deriving DecidableEq, Repr

def Unknown.message (unknown : Unknown) : String :=
  s!"Unknown element kind '{unknown.text}' (expected 'edge' or 'lane')"

/-- The kind of this name, or a refusal that repeats the name. -/
def parse (text : String) : Except Unknown Kind :=
  match ofName? text with
  | some kind => .ok kind
  | none => .error ⟨text⟩

end Kind

/-- A set of element kinds. -/
structure KindSet where
  edge : Bool
  lane : Bool
  deriving DecidableEq, Repr

namespace KindSet

/-- No kinds. -/
def empty : KindSet :=
  ⟨false, false⟩

/-- All kinds. -/
def full : KindSet :=
  ⟨true, true⟩

def contains (set : KindSet) : Kind → Bool
  | .edge => set.edge
  | .lane => set.lane

def insert (set : KindSet) : Kind → KindSet
  | .edge => { set with edge := true }
  | .lane => { set with lane := true }

/-- The set of the kinds in a list. -/
def ofList (kinds : List Kind) : KindSet :=
  kinds.foldl insert empty

/-- The members, edges before lanes. -/
def toList (set : KindSet) : List Kind :=
  Kind.all.filter set.contains

/-- The full set has every kind. -/
@[simp] theorem contains_full (kind : Kind) : full.contains kind = true := by
  cases kind <;> rfl

end KindSet

end IntervalDump
