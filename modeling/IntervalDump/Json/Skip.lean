import IntervalDump.Json.Lexical
/-!
# Passing over a JSON value

Members with unknown names are passed over, whatever their values are and however deep these nest.
`pass` keeps the brackets that are open in a list and goes from one value to the next; each step
leaves less of the text, so it ends.
-/

namespace IntervalDump.Json

/-- The brackets of arrays and of objects. -/
inductive Bracket where
  | square
  | curly
  deriving DecidableEq, Repr

def Bracket.close : Bracket → Char
  | .square => ']'
  | .curly => '\x7d'

/-- The bracket that a character opens. -/
def Bracket.ofOpen? (c : Char) : Option Bracket :=
  if c = '[' then some .square
  else if c = '\x7b' then some .curly
  else none

/-- Passes over a key and its colon. -/
def passKey (s : List Char) : Except Fault (List Char) :=
  match passMark '"' s with
  | .error fault => .error fault
  | .ok s =>
    match passText s with
    | .error fault => .error fault
    | .ok s => passMark ':' s

/-- Goes to the beginning of the next value and closes the brackets that end before it. `first`
says that the innermost bracket was only just opened. -/
def toNext : (brackets : List Bracket) → (first : Bool) → List Char →
    Except Fault (List Bracket × List Char)
  | [], _, s => .ok ([], s)
  | bracket :: outer, first, s =>
    match nextItem bracket.close first s with
    | .error fault => .error fault
    | .ok (false, s) => toNext outer false s
    | .ok (true, s) =>
      match bracket with
      | .square => .ok (bracket :: outer, s)
      | .curly =>
        match passKey s with
        | .error fault => .error fault
        | .ok s => .ok (bracket :: outer, s)

/-- Passes over a value that is neither an array nor an object. -/
def passScalar (c : Char) (s : List Char) : Except Fault (List Char) :=
  if c = 'n' then passWord ['u', 'l', 'l'] s
  else if c = 't' then passWord ['r', 'u', 'e'] s
  else if c = 'f' then passWord ['a', 'l', 's', 'e'] s
  else if c = '"' then passText s
  else if startsNumber c then
    match readNumber .grammar (c :: s) with
    | .error fault => .error fault
    | .ok (_, s) => .ok s
  else .error .grammar

/-- What a value begins with: a bracket that is now open, or a whole value. -/
def passHead (brackets : List Bracket) (s : List Char) : Except Fault (List Bracket × List Char) :=
  match skipBlanks s with
  | [] => .error .truncated
  | c :: s =>
    match Bracket.ofOpen? c with
    | some bracket => toNext (bracket :: brackets) true s
    | none =>
      match passScalar c s with
      | .error fault => .error fault
      | .ok s => toNext brackets false s

/-- A key takes its quotation marks. -/
theorem length_passKey {s r : List Char} (h : passKey s = .ok r) : r.length < s.length := by
  unfold passKey at h
  split at h
  · contradiction
  · next h1 =>
    split at h
    · contradiction
    · next h2 =>
      have := length_passMark h1
      have := length_passText h2
      have := length_passMark h
      omega

/-- Going on to the next item takes the closing brackets that come before it, and perhaps none. -/
theorem length_toNext {brackets inner : List Bracket} {first : Bool} {s r : List Char}
    (h : toNext brackets first s = .ok (inner, r)) : r.length ≤ s.length := by
  fun_induction toNext brackets first s with
  | case1 => simp_all
  | case2 => contradiction
  | case3 bracket outer first s s' hn ih =>
    have := length_nextItem hn
    have := ih h
    omega
  | case4 outer first s s' hn =>
    have := length_nextItem hn
    simp_all
  | case5 => contradiction
  | case6 outer first s s' r' hk hn =>
    have := length_nextItem hn
    have := length_passKey hk
    simp only [Except.ok.injEq, Prod.mk.injEq] at h
    obtain ⟨-, rfl⟩ := h
    omega

/-- A scalar whose first character is gone may have no others. -/
theorem length_passScalar {c : Char} {s r : List Char} (h : passScalar c s = .ok r) :
    r.length ≤ s.length := by
  unfold passScalar at h
  split at h
  · exact length_passWord h
  split at h
  · exact length_passWord h
  split at h
  · exact length_passWord h
  split at h
  · exact Nat.le_of_lt (length_passText h)
  split at h
  · split at h
    · contradiction
    · next hn =>
      have := length_readNumber hn
      obtain rfl := Except.ok.inj h
      simp only [List.length_cons] at this
      omega
  · contradiction

/-- The head of a value takes at least its first character. -/
theorem length_passHead {brackets inner : List Bracket} {s r : List Char}
    (h : passHead brackets s = .ok (inner, r)) : r.length < s.length := by
  have h0 := length_skipBlanks_le s
  unfold passHead at h
  split at h
  · contradiction
  · next hs =>
    rw [hs] at h0
    simp only [List.length_cons] at h0
    split at h
    · have := length_toNext h
      omega
    · split at h
      · contradiction
      · next hp =>
        have := length_passScalar hp
        have := length_toNext h
        omega

/-- Passes over a value and over what is left of the open brackets around it. -/
def pass (brackets : List Bracket) (s : List Char) : Except Fault (List Char) :=
  match _h : passHead brackets s with
  | .error fault => .error fault
  | .ok ([], r) => .ok r
  | .ok (bracket :: inner, r) => pass (bracket :: inner) r
termination_by s.length
decreasing_by exact length_passHead _h

/-- A value that is passed over takes at least one character. -/
theorem length_pass {brackets : List Bracket} {s r : List Char} (h : pass brackets s = .ok r) :
    r.length < s.length := by
  fun_induction pass brackets s with
  | case1 => contradiction
  | case2 brackets s r' hp =>
    obtain rfl := Except.ok.inj h
    exact length_passHead hp
  | case3 brackets s bracket inner r' hp ih =>
    have := length_passHead hp
    have := ih h
    omega

end IntervalDump.Json
