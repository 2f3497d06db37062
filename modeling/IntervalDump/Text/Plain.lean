/-!
# Plain text: what is left without control sequences

A text that goes to a log must not command the terminal it may be read on. `Text.plain` leaves out
the control characters, apart from those that lay out a text, and with them the sequences that an
escape character begins. What is left is not changed.

* **Sequences of characters**: an escape character and one more, perhaps announced by others, or a
  bracket, parameters and one more. A layout character interrupts such a sequence: what follows is
  kept until a control character takes the sequence up again where it stood, or a character beyond
  ASCII ends it.
* **Strings**: commands for the system and texts for the device. These take in whatever follows, up
  to their end, and all of it if they have none.
-/

namespace IntervalDump.Text

/-- Where in a sequence the next character stands. -/
inductive Place where
  /-- In no sequence. -/
  | text
  /-- Behind the escape character. -/
  | escape
  /-- Behind characters that announce one more. -/
  | announced
  /-- Behind `[`: parameters, then one character that is none. -/
  | parameters
  /-- In a command for the system, which a bell ends. -/
  | command
  /-- Behind the `P` that begins a device string with a head: its parameters, announced by one mark
  at most, and the character that the string begins with. -/
  | device
  /-- In the parameters of such a head. -/
  | deviceParameters
  /-- In such a head, behind characters that announce the last one. -/
  | deviceAnnounced
  /-- In a text for the device. -/
  | string
  deriving DecidableEq, Repr

/-- The control characters that lay out a text. -/
def isLayout (c : Char) : Bool :=
  c == '\t' || c == '\n' || c == '\x0c' || c == '\r'

/-- The control characters that have no place in a text. -/
def isControl (c : Char) : Bool :=
  (c.toNat < 0x20 && !isLayout c) || c == '\x7f'

namespace Place

/-- Whether the code of a character lies in a range. -/
def isWithin (low high : Nat) (c : Char) : Bool :=
  low ≤ c.toNat && c.toNat ≤ high

/-- The characters that announce another one. -/
def isAnnouncing : Char → Bool :=
  isWithin 0x20 0x2F

/-- The characters that can be the last one of a sequence. -/
def isLast : Char → Bool :=
  isWithin 0x40 0x7E

/-- A text for the device ends at a byte of this value. -/
def endsString (c : Char) : Bool :=
  (String.utf8EncodeChar c).contains 0x9C

/-- The place behind a character that an escape character precedes. -/
def behindEscape (c : Char) : Place :=
  if isAnnouncing c then .announced
  else if c = '[' then .parameters
  else if c = ']' then .command
  else if c = 'P' then .device
  else if c = 'X' ∨ c = '^' ∨ c = '_' then .string
  else if isWithin 0x30 0x7E c then .text
  else .escape

/-- The place behind a character in the head of a device string, which is at `place`. A head that
breaks the order of its parts is passed over like the string itself. -/
def behindHead (place : Place) (c : Char) : Place :=
  if isLast c then .string
  else if isAnnouncing c then .deviceAnnounced
  else if isWithin 0x30 0x3F c then
    if place = .deviceAnnounced then .string
    else if place = .deviceParameters ∧ isWithin 0x3C 0x3F c then .string
    else .deviceParameters
  else place

/-- The place behind a character that is not kept, and neither an escape character nor one of those
that give a sequence up. -/
def next (place : Place) (c : Char) : Place :=
  match place with
  | .text => .text
  | .escape => behindEscape c
  | .announced => if isWithin 0x30 0x7E c then .text else .announced
  | .parameters => if isLast c then .text else .parameters
  | .command => if c = '\x07' then .text else .command
  | .device | .deviceParameters | .deviceAnnounced => behindHead place c
  | .string => if endsString c then .text else .string

/-- Whether a character is kept that stands at this place, behind one that was not kept. -/
def keeps (place : Place) (c : Char) : Bool :=
  match place with
  | .text => !isControl c
  | .escape | .announced | .parameters => isLayout c
  | .command | .device | .deviceParameters | .deviceAnnounced | .string => false

end Place

/-- How far a text was read. -/
structure Reading where
  place : Place := .text
  /-- Whether the last character was kept. -/
  kept : Bool := false
  deriving DecidableEq, Repr

namespace Reading

/-- The next character is read. -/
def next (r : Reading) (c : Char) : Reading :=
  if c = '\x1b' then ⟨.escape, false⟩
  else if c = '\x18' ∨ c = '\x1a' then ⟨.text, false⟩
  else if r.kept then
    if isControl c then ⟨r.place, false⟩
    else ⟨if c.toNat < 0x80 then r.place else .text, true⟩
  else if r.place.keeps c then ⟨r.place, true⟩
  else ⟨r.place.next c, false⟩

/-- A character that is no control character is kept. -/
theorem next_of_isControl_eq_false {c : Char} (h : isControl c = false) (kept : Bool) :
    next ⟨.text, kept⟩ c = ⟨.text, true⟩ := by
  have ne {d : Char} (hd : isControl d = true) : c ≠ d := fun e => by simp [e, hd] at h
  have escape : c ≠ '\x1b' := ne (by decide)
  have cancel : ¬(c = '\x18' ∨ c = '\x1a') := not_or.2 ⟨ne (by decide), ne (by decide)⟩
  cases kept <;> simp [next, escape, cancel, Place.keeps, h]

end Reading

/-- Goes on with `r`; `out` is what was kept so far, the last character first. -/
def plainFrom (r : Reading) (out : List Char) : List Char → List Char
  | [] => out.reverse
  | c :: rest =>
    let r := r.next c
    plainFrom r (if r.kept then c :: out else out) rest

/-- A text without control characters and control sequences. -/
def plain (text : List Char) : List Char :=
  plainFrom {} [] text

/-- Text without control characters is kept as it is. -/
theorem plainFrom_of_isControl_eq_false {text : List Char}
    (h : ∀ c ∈ text, isControl c = false) (kept : Bool) (out : List Char) :
    plainFrom ⟨.text, kept⟩ out text = out.reverse ++ text := by
  induction text generalizing kept out with
  | nil => simp [plainFrom]
  | cons c rest ih =>
    obtain ⟨hc, hrest⟩ := List.forall_mem_cons.1 h
    simp [plainFrom, Reading.next_of_isControl_eq_false hc, ih hrest]

/-- Nothing is left out of a text without control characters. -/
theorem plain_eq_self {text : List Char} (h : ∀ c ∈ text, isControl c = false) :
    plain text = text :=
  plainFrom_of_isControl_eq_false h false []

end IntervalDump.Text
