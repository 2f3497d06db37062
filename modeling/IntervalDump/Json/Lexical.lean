import IntervalDump.Decimal.Digits
/-!
# Reading JSON: blanks, words, numbers and texts

The reading steps below the level of values. A step takes the characters that are left and gives
what it read with the characters behind it, or the first fault it met. There are three sorts of
faults, and which one a text has is decided by the first mistake from left to right.

Texts and numbers are read in two ways. Where a value is wanted they must have a value: surrogate
escapes come in pairs, and a number is one that a double can hold. Where a value is passed over,
only its shape matters.
-/

namespace IntervalDump.Json

/-- Why a text is refused: it ends too early, it is not JSON, or it does not have the expected form.
-/
inductive Fault where
  /-- The text is not JSON. -/
  | grammar
  /-- The text is JSON so far, but not of the form that is wanted. -/
  | shape
  /-- The text ends too early. -/
  | truncated
  deriving DecidableEq, Repr

def Fault.message : Fault → String
  | .grammar => "the text is not JSON"
  | .shape => "the text has not the form of a configuration"
  | .truncated => "the text ends too early"

/-- The message that is shown for the fault. -/
def isBlank (c : Char) : Bool :=
  c == ' ' || c == '\t' || c == '\n' || c == '\r'

/-- The blanks of JSON. -/
def skipBlanks (s : List Char) : List Char :=
  s.dropWhile isBlank

/-- Passes over the characters of a word. -/
def passWord : List Char → List Char → Except Fault (List Char)
  | [], s => .ok s
  | _ :: _, [] => .error .truncated
  | expected :: word, c :: s => if c = expected then passWord word s else .error .grammar

/-! ## Texts -/

/-- The value of a hexadecimal digit. -/
def hexValue? (c : Char) : Option Nat :=
  if Decimal.isDigit c then some (Decimal.digitValue c)
  else if 'a' ≤ c ∧ c ≤ 'f' then some (c.toNat - 'a'.toNat + 10)
  else if 'A' ≤ c ∧ c ≤ 'F' then some (c.toNat - 'A'.toNat + 10)
  else none

/-- The number that four hexadecimal digits spell. -/
def hexUnit? (a b c d : Char) : Option Nat := do
  return (((← hexValue? a) * 16 + (← hexValue? b)) * 16 + (← hexValue? c)) * 16 + (← hexValue? d)

/-- The fault of an escape that has fewer than four characters for its digits: those that are there
may still fill four bytes. -/
def shortUnit (s : List Char) : Fault :=
  if 4 ≤ s.foldr (fun c size => c.utf8Size + size) 0 then .grammar else .truncated

/-- The character of an escape of one letter. -/
def escaped? (c : Char) : Option Char :=
  if c = '"' ∨ c = '\\' ∨ c = '/' then some c
  else if c = 'b' then some '\x08'
  else if c = 'f' then some '\x0c'
  else if c = 'n' then some '\n'
  else if c = 'r' then some '\r'
  else if c = 't' then some '\t'
  else none

/-- The character that a pair of surrogates stands for. -/
def ofSurrogates (high low : Nat) : Char :=
  Char.ofNat (0x10000 + (high - 0xD800) * 0x400 + (low - 0xDC00))

/-- Reads the rest of a text up to its closing quotation mark; `out` is what was read of it, the
last character first. -/
def readText (out : List Char) : List Char → Except Fault (List Char × List Char)
  | [] => .error .truncated
  | '"' :: s => .ok (out.reverse, s)
  | '\\' :: 'u' :: a :: b :: c :: d :: s =>
    match hexUnit? a b c d with
    | none => .error .grammar
    | some unit =>
      if 0xDC00 ≤ unit ∧ unit ≤ 0xDFFF then .error .grammar
      else if 0xD800 ≤ unit ∧ unit ≤ 0xDBFF then
        match s with
        | [] | ['\\'] => .error .truncated
        | '\\' :: 'u' :: e :: f :: g :: h :: s =>
          match hexUnit? e f g h with
          | none => .error .grammar
          | some low =>
            if 0xDC00 ≤ low ∧ low ≤ 0xDFFF then readText (ofSurrogates unit low :: out) s
            else .error .grammar
        | '\\' :: 'u' :: s => .error (shortUnit s)
        | _ => .error .grammar
      else readText (Char.ofNat unit :: out) s
  | '\\' :: 'u' :: s => .error (shortUnit s)
  | ['\\'] => .error .truncated
  | '\\' :: c :: s =>
    match escaped? c with
    | some c => readText (c :: out) s
    | none => .error .grammar
  | c :: s => if c.toNat < 0x20 then .error .grammar else readText (c :: out) s

/-- Passes over the rest of a text up to its closing quotation mark. -/
def passText : List Char → Except Fault (List Char)
  | [] => .error .truncated
  | '"' :: s => .ok s
  | '\\' :: 'u' :: a :: b :: c :: d :: s =>
    match hexUnit? a b c d with
    | none => .error .grammar
    | some _ => passText s
  | '\\' :: 'u' :: s => .error (shortUnit s)
  | ['\\'] => .error .truncated
  | '\\' :: c :: s =>
    match escaped? c with
    | some _ => passText s
    | none => .error .grammar
  | c :: s => if c.toNat < 0x20 then .error .grammar else passText s

/-! ## Numbers -/

/-- The digits of a number, by their places. -/
structure NumberText where
  whole : List Char
  fraction : List Char
  exponentNegative : Bool
  exponent : List Char

namespace NumberText

/-- Digits are counted into a significand below `2 ^ 64` as long as they fit. -/
def limit : Nat := Nat.pow 2 64

/-- Counts in the digits before the point. From the first one that does not fit on, each of them is
a factor of ten. -/
def countWhole (significand : Nat) : List Char → Nat × Nat
  | [] => (significand, 0)
  | c :: digits =>
    let next := 10 * significand + Decimal.digitValue c
    if next < limit then countWhole next digits else (significand, digits.length + 1)

/-- Counts in the digits behind the point and tells how many they were. From the first one that
does not fit on, they are left out. -/
def countFraction (significand counted : Nat) : List Char → Nat × Nat
  | [] => (significand, counted)
  | c :: digits =>
    let next := 10 * significand + Decimal.digitValue c
    if next < limit then countFraction next (counted + 1) digits else (significand, counted)

/-- Whether a double can hold the number without becoming infinite. -/
def isInRange (n : NumberText) : Bool :=
  let (significand, factors) := countWhole 0 n.whole
  let (significand, counted) := countFraction significand 0 n.fraction
  let power : Int := Decimal.ofDigits n.exponent
  let exponent : Int := factors - counted + (if n.exponentNegative then -power else power)
  significand = 0 || exponent < 0 ||
    (exponent ≤ 308 &&
      (Float.ofNat significand * Float.ofScientific 1 false exponent.toNat).isFinite)

end NumberText

/-- The digits of the whole part: a zero alone, or digits that do not begin with one. -/
def readWhole (early : Fault) : List Char → Except Fault (List Char × List Char)
  | [] => .error early
  | '0' :: s =>
    if (s.head?.map Decimal.isDigit).getD false then .error .grammar else .ok (['0'], s)
  | c :: s =>
    if Decimal.isDigit c then
      .ok (c :: s.takeWhile Decimal.isDigit, s.dropWhile Decimal.isDigit)
    else .error .grammar

/-- A run of digits that must not be empty. -/
def readDigits (early : Fault) : List Char → Except Fault (List Char × List Char)
  | [] => .error early
  | c :: s =>
    if Decimal.isDigit c then
      .ok (c :: s.takeWhile Decimal.isDigit, s.dropWhile Decimal.isDigit)
    else .error .grammar

def readFraction (early : Fault) : List Char → Except Fault (List Char × List Char)
  | '.' :: s => readDigits early s
  | s => .ok ([], s)

/-- The exponent part, if there is one; the answer says whether it has a minus. -/
def readExponent (early : Fault) : List Char → Except Fault ((Bool × List Char) × List Char)
  | c :: s =>
    if c = 'e' ∨ c = 'E' then
      let (negative, s) := Decimal.takeSign s
      match readDigits early s with
      | .error fault => .error fault
      | .ok (digits, s) => .ok ((negative, digits), s)
    else .ok ((false, []), c :: s)
  | [] => .ok ((false, []), [])

/-- The digits behind the point; none if there is no point. -/
def passMinus : List Char → List Char
  | '-' :: s => s
  | s => s

/-- A number; `early` is the fault of a text that ends inside it. -/
def readNumber (early : Fault) (s : List Char) : Except Fault (NumberText × List Char) := do
  let (whole, s) ← readWhole early (passMinus s)
  let (fraction, s) ← readFraction early s
  let ((negative, exponent), s) ← readExponent early s
  return (⟨whole, fraction, negative, exponent⟩, s)

/-- The text without a minus before it. -/
def startsNumber (c : Char) : Bool :=
  c == '-' || Decimal.isDigit c

/-! ## Items and faults of shape -/

/-- Where the next item of an array or object begins: at once for the first one, behind a comma for
the others. The answer is `false` if the closing bracket `close` stands there. -/
def nextItem (close : Char) (first : Bool) (s : List Char) : Except Fault (Bool × List Char) :=
  match skipBlanks s with
  | [] => .error .truncated
  | c :: s =>
    if c = close then .ok (false, s)
    else if first then .ok (true, c :: s)
    else if c = ',' then
      match skipBlanks s with
      | [] => .error .truncated
      | c :: s => if c = close then .error .grammar else .ok (true, c :: s)
    else .error .grammar

/-- Passes over one character, blanks before it allowed. -/
def passMark (mark : Char) (s : List Char) : Except Fault (List Char) :=
  match skipBlanks s with
  | [] => .error .truncated
  | c :: s => if c = mark then .ok s else .error .grammar

/-- The fault of a value that is not of the wanted form. The form of an array or object is known
from its first character; every other value is read to its end, and a mistake in it counts
first. -/
def misfit (s : List Char) : Fault :=
  match skipBlanks s with
  | [] => .truncated
  | c :: s =>
    let behind {α : Type} (read : Except Fault α) : Fault :=
      match read with
      | .error fault => fault
      | .ok _ => .shape
    if c = 'n' then behind (passWord ['u', 'l', 'l'] s)
    else if c = 't' then behind (passWord ['r', 'u', 'e'] s)
    else if c = 'f' then behind (passWord ['a', 'l', 's', 'e'] s)
    else if c = '"' then behind (readText [] s)
    else if startsNumber c then
      match readNumber .truncated (c :: s) with
      | .error fault => fault
      | .ok (n, _) => if n.isInRange then .shape else .grammar
    else if c = '[' ∨ c = '\x7b' then .shape
    else .grammar

/-! ## What is left is shorter -/

/-- Skipping blanks puts nothing back. -/
theorem length_skipBlanks_le (s : List Char) : (skipBlanks s).length ≤ s.length :=
  (List.dropWhile_sublist _).length_le

/-- Passing a word puts nothing back; the word may be empty. -/
theorem length_passWord {word s r : List Char} (h : passWord word s = .ok r) :
    r.length ≤ s.length := by
  fun_induction passWord word s with
  | case1 s => obtain rfl := Except.ok.inj h; exact Nat.le_refl _
  | case2 => contradiction
  | case3 word s c ih => have := ih h; simp only [List.length_cons]; omega
  | case4 => contradiction

/-- A text takes at least its closing quotation mark. -/
theorem length_readText {out s t r : List Char} (h : readText out s = .ok (t, r)) :
    r.length < s.length := by
  fun_induction readText out s <;> simp_all <;> omega

/-- A text that is passed over takes at least its closing quotation mark too. -/
theorem length_passText {s r : List Char} (h : passText s = .ok r) : r.length < s.length := by
  fun_induction passText s <;> simp_all <;> omega

/-- A whole part has a digit. -/
theorem length_readWhole {early : Fault} {s t r : List Char} (h : readWhole early s = .ok (t, r)) :
    r.length < s.length := by
  unfold readWhole at h
  split at h
  · contradiction
  · split at h <;> simp_all
  · next c s _ =>
    split at h
    · have := (List.dropWhile_sublist Decimal.isDigit (l := s)).length_le
      simp only [Except.ok.injEq, Prod.mk.injEq] at h
      obtain ⟨-, rfl⟩ := h
      simp only [List.length_cons]
      omega
    · contradiction

/-- A run of digits that must not be empty takes one. -/
theorem length_readDigits {early : Fault} {s t r : List Char}
    (h : readDigits early s = .ok (t, r)) : r.length < s.length := by
  unfold readDigits at h
  split at h
  · contradiction
  · next c s =>
    split at h
    · have := (List.dropWhile_sublist Decimal.isDigit (l := s)).length_le
      simp only [Except.ok.injEq, Prod.mk.injEq] at h
      obtain ⟨-, rfl⟩ := h
      simp only [List.length_cons]
      omega
    · contradiction

/-- A fraction may be missing, and then takes nothing. -/
theorem length_readFraction {early : Fault} {s t r : List Char}
    (h : readFraction early s = .ok (t, r)) : r.length ≤ s.length := by
  unfold readFraction at h
  split at h
  · have := length_readDigits h
    simp only [List.length_cons]
    omega
  · simp_all

/-- A sign may be missing too. -/
theorem length_takeSign_le (s : List Char) : (Decimal.takeSign s).2.length ≤ s.length := by
  unfold Decimal.takeSign
  split <;> simp

/-- An exponent may be missing, and then takes nothing. -/
theorem length_readExponent {early : Fault} {s r : List Char} {t : Bool × List Char}
    (h : readExponent early s = .ok (t, r)) : r.length ≤ s.length := by
  unfold readExponent at h
  split at h
  · next c s =>
    have hs := length_takeSign_le s
    split at h
    · simp only at h
      split at h
      · contradiction
      · next hd =>
        have := length_readDigits hd
        simp only [Except.ok.injEq, Prod.mk.injEq] at h
        obtain ⟨-, rfl⟩ := h
        simp only [List.length_cons]
        omega
    · simp_all
  · simp_all

/-- A number takes at least the digit of its whole part. -/
theorem length_readNumber {early : Fault} {s r : List Char} {n : NumberText}
    (h : readNumber early s = .ok (n, r)) : r.length < s.length := by
  have hm : (passMinus s).length ≤ s.length := by
    unfold passMinus
    split <;> simp
  unfold readNumber at h
  cases h1 : readWhole early (passMinus s) with
  | error e => simp [h1, bind, Except.bind] at h
  | ok p =>
    obtain ⟨whole, s1⟩ := p
    have l1 := length_readWhole h1
    cases h2 : readFraction early s1 with
    | error e => simp [h1, h2, bind, Except.bind] at h
    | ok p =>
      obtain ⟨fraction, s2⟩ := p
      have l2 := length_readFraction h2
      cases h3 : readExponent early s2 with
      | error e => simp [h1, h2, h3, bind, Except.bind] at h
      | ok p =>
        obtain ⟨exponent, s3⟩ := p
        have l3 := length_readExponent h3
        simp only [h1, h2, h3, bind, Except.bind, pure, Except.pure, Except.ok.injEq,
          Prod.mk.injEq] at h
        obtain ⟨-, rfl⟩ := h
        omega

/-- Before the first item nothing need be taken. -/
theorem length_nextItem {close : Char} {first more : Bool} {s r : List Char}
    (h : nextItem close first s = .ok (more, r)) : r.length ≤ s.length := by
  have h0 := length_skipBlanks_le s
  unfold nextItem at h
  split at h
  · contradiction
  · next c s' hs =>
    rw [hs] at h0
    simp only [List.length_cons] at h0
    have h1 := length_skipBlanks_le s'
    split at h
    · simp only [Except.ok.injEq, Prod.mk.injEq] at h
      obtain ⟨-, rfl⟩ := h
      omega
    · split at h
      · simp only [Except.ok.injEq, Prod.mk.injEq] at h
        obtain ⟨-, rfl⟩ := h
        simpa using h0
      · split at h
        · split at h
          · contradiction
          · next hs' =>
            rw [hs'] at h1
            split at h
            · contradiction
            · simp only [Except.ok.injEq, Prod.mk.injEq] at h
              obtain ⟨-, rfl⟩ := h
              omega
        · contradiction

/-- A mark takes itself. -/
theorem length_passMark {mark : Char} {s r : List Char} (h : passMark mark s = .ok r) :
    r.length < s.length := by
  have h0 := length_skipBlanks_le s
  unfold passMark at h
  split at h
  · contradiction
  · next c s' hs =>
    rw [hs] at h0
    simp only [List.length_cons] at h0
    split at h
    · obtain rfl := Except.ok.inj h
      omega
    · contradiction

end IntervalDump.Json
