import IntervalDump.Json.Skip
/-!
# Readers: decoding JSON text into a wanted form

A `Reader` decodes the value at the head of a text and gives the text behind it; it always takes at
least one character. Readers are built from others:

* `Reader.text`, a string;
* `Reader.named`, one of finitely many names, or the object that has it as only key, with `null`;
* `Reader.list`, an array;
* `Reader.record`, an object whose known members are read into a state and whose unknown ones are
  passed over, or an array of the members in their order.

`Reader.decode` reads a whole text. Everywhere the fault that is given is the first one from left
to right.
-/

namespace IntervalDump.Json

/-- Reads a value from the front of a text and takes at least one character. -/
structure Reader (α : Type) where
  run : List Char → Except Fault (α × List Char)
  shortens : ∀ {s r : List Char} {a : α}, run s = .ok (a, r) → r.length < s.length

namespace Reader

variable {α β S F : Type}

/-- The reader that goes on to work on what was read. -/
def map (f : α → β) (reader : Reader α) : Reader β where
  run s :=
    match reader.run s with
    | .error fault => .error fault
    | .ok (a, s) => .ok (f a, s)
  shortens h := by
    split at h
    · contradiction
    · next hr =>
      simp only [Except.ok.injEq, Prod.mk.injEq] at h
      obtain ⟨-, rfl⟩ := h
      exact reader.shortens hr

/-- Reads a whole text. -/
def decode (reader : Reader α) (s : List Char) : Except Fault α :=
  match reader.run s with
  | .error fault => .error fault
  | .ok (a, s) => if (skipBlanks s).isEmpty then .ok a else .error .grammar

/-! ## Texts and names -/

def runText (s : List Char) : Except Fault (String × List Char) :=
  match skipBlanks s with
  | [] => .error .truncated
  | c :: rest =>
    if c = '"' then
      match readText [] rest with
      | .error fault => .error fault
      | .ok (chars, rest) => .ok (String.ofList chars, rest)
    else .error (misfit (c :: rest))

/-- A text takes at least its quotation marks. -/
theorem length_runText {s r : List Char} {t : String} (h : runText s = .ok (t, r)) :
    r.length < s.length := by
  have h0 := length_skipBlanks_le s
  unfold runText at h
  split at h
  · contradiction
  · next hs =>
    rw [hs] at h0
    split at h
    · split at h
      · contradiction
      · next hr =>
        have := length_readText hr
        simp only [List.length_cons] at h0
        simp only [Except.ok.injEq, Prod.mk.injEq] at h
        obtain ⟨-, rfl⟩ := h
        omega
    · contradiction

def text : Reader String where
  run := runText
  shortens := length_runText

/-- A string that must be a name. -/
def runName (ofName? : String → Option α) (s : List Char) : Except Fault (α × List Char) :=
  match runText s with
  | .error fault => .error fault
  | .ok (name, s) =>
    match ofName? name with
    | none => .error .shape
    | some a => .ok (a, s)

/-- A name is a text. -/
theorem length_runName {ofName? : String → Option α} {s r : List Char} {a : α}
    (h : runName ofName? s = .ok (a, r)) : r.length < s.length := by
  unfold runName at h
  split at h
  · contradiction
  · next hr =>
    have := length_runText hr
    split at h
    · contradiction
    · simp_all

/-- Passes over `null`. -/
def passNull (s : List Char) : Except Fault (List Char) :=
  match skipBlanks s with
  | [] => .error .truncated
  | c :: rest => if c = 'n' then passWord ['u', 'l', 'l'] rest else .error (misfit (c :: rest))

/-- The word takes its four letters. -/
theorem length_passNull {s r : List Char} (h : passNull s = .ok r) : r.length < s.length := by
  have h0 := length_skipBlanks_le s
  unfold passNull at h
  split at h
  · contradiction
  · next hs =>
    rw [hs] at h0
    simp only [List.length_cons] at h0
    split at h
    · have := length_passWord h
      omega
    · contradiction

/-- A key that must be a name. What is not a text is no key at all. -/
def runNameKey (ofName? : String → Option α) (s : List Char) : Except Fault (α × List Char) :=
  match skipBlanks s with
  | [] => .error .truncated
  | c :: rest => if c = '"' then runName ofName? (c :: rest) else .error .grammar

/-- A name with the colon behind it takes the name. -/
theorem length_runNameKey {ofName? : String → Option α} {s r : List Char} {a : α}
    (h : runNameKey ofName? s = .ok (a, r)) : r.length < s.length := by
  have h0 := length_skipBlanks_le s
  unfold runNameKey at h
  split at h
  · contradiction
  · next hs =>
    rw [hs] at h0
    split at h
    · have := length_runName h
      omega
    · contradiction

/-- The rest of an object whose only key is a name. -/
def runNameObject (ofName? : String → Option α) (s : List Char) : Except Fault (α × List Char) :=
  match runNameKey ofName? s with
  | .error fault => .error fault
  | .ok (a, s) =>
    match passMark ':' s with
    | .error fault => .error fault
    | .ok s =>
      match passNull s with
      | .error fault => .error fault
      | .ok s =>
        match passMark '\x7d' s with
        | .error fault => .error fault
        | .ok s => .ok (a, s)

/-- An object with a name as its key takes at least its brackets. -/
theorem length_runNameObject {ofName? : String → Option α} {s r : List Char} {a : α}
    (h : runNameObject ofName? s = .ok (a, r)) : r.length < s.length := by
  unfold runNameObject at h
  split at h
  · contradiction
  · next h1 =>
    split at h
    · contradiction
    · next h2 =>
      split at h
      · contradiction
      · next h3 =>
        split at h
        · contradiction
        · next h4 =>
          have := length_runNameKey h1
          have := length_passMark h2
          have := length_passNull h3
          have := length_passMark h4
          simp only [Except.ok.injEq, Prod.mk.injEq] at h
          obtain ⟨-, rfl⟩ := h
          omega

/-- A text between quotation marks. -/
def runNamed (ofName? : String → Option α) (s : List Char) : Except Fault (α × List Char) :=
  match skipBlanks s with
  | [] => .error .truncated
  | c :: rest =>
    if c = '"' then runName ofName? (c :: rest)
    else if c = '\x7b' then runNameObject ofName? rest
    else .error .grammar

/-- A name takes something in either of its forms. -/
theorem length_runNamed {ofName? : String → Option α} {s r : List Char} {a : α}
    (h : runNamed ofName? s = .ok (a, r)) : r.length < s.length := by
  have h0 := length_skipBlanks_le s
  unfold runNamed at h
  split at h
  · contradiction
  · next hs =>
    rw [hs] at h0
    split at h
    · have := length_runName h
      omega
    · split at h
      · have := length_runNameObject h
        simp only [List.length_cons] at h0
        omega
      · contradiction

/-- One of the values that have names. -/
def named (ofName? : String → Option α) : Reader α where
  run := runNamed ofName?
  shortens := length_runNamed

/-! ## Arrays -/

/-- The items up to the bracket `close`; `out` holds those so far, the last one first. -/
def runItems (close : Char) (item : Reader α) (first : Bool) (out : List α) (s : List Char) :
    Except Fault (List α × List Char) :=
  match _hn : nextItem close first s with
  | .error fault => .error fault
  | .ok (false, r) => .ok (out.reverse, r)
  | .ok (true, r) =>
    match _hr : item.run r with
    | .error fault => .error fault
    | .ok (a, r) => runItems close item false (a :: out) r
termination_by s.length
decreasing_by
  have := length_nextItem _hn
  have := item.shortens _hr
  omega

/-- The items of a list may be none at all. -/
theorem length_runItems {close : Char} {item : Reader α} {first : Bool} {out items : List α}
    {s r : List Char} (h : runItems close item first out s = .ok (items, r)) :
    r.length ≤ s.length := by
  fun_induction runItems close item first out s <;> try contradiction
  · next hn =>
    have := length_nextItem hn
    simp_all
  · next hn a r' hr ih =>
    have := length_nextItem hn
    have := item.shortens hr
    have := ih h
    omega

def runList (item : Reader α) (s : List Char) : Except Fault (List α × List Char) :=
  match skipBlanks s with
  | [] => .error .truncated
  | c :: rest =>
    if c = '[' then runItems ']' item true [] rest else .error (misfit (c :: rest))

/-- A list takes its opening bracket. -/
theorem length_runList {item : Reader α} {items : List α} {s r : List Char}
    (h : runList item s = .ok (items, r)) : r.length < s.length := by
  have h0 := length_skipBlanks_le s
  unfold runList at h
  split at h
  · contradiction
  · next hs =>
    rw [hs] at h0
    simp only [List.length_cons] at h0
    split at h
    · have := length_runItems h
      omega
    · contradiction

/-- The items of an array, each read by the same reader. -/
def list (item : Reader α) : Reader (List α) where
  run := runList item
  shortens := length_runList

/-! ## Records -/

/-- A record with fields of the type `F`, read into states of the type `S`. -/
structure Shape (F S : Type) where
  /-- The fields, in their order. -/
  fields : List F
  key : F → String
  /-- Whether the state already holds the field. -/
  holds : S → F → Bool
  /-- Reads the value of a field into a state. -/
  member : F → S → Reader S

namespace Shape

/-- The field that a key stands for. -/
def field? (shape : Shape F S) (key : String) : Option F :=
  shape.fields.find? fun f => shape.key f == key

/-- One member of an object, from its key on. A known field must not be there yet. -/
def runMember (shape : Shape F S) (state : S) (s : List Char) : Except Fault (S × List Char) :=
  match passMark '"' s with
  | .error fault => .error fault
  | .ok s =>
    match readText [] s with
    | .error fault => .error fault
    | .ok (key, s) =>
      match shape.field? (String.ofList key) with
      | none =>
        match passMark ':' s with
        | .error fault => .error fault
        | .ok s =>
          match pass [] s with
          | .error fault => .error fault
          | .ok s => .ok (state, s)
      | some field =>
        if shape.holds state field then .error .shape
        else
          match passMark ':' s with
          | .error fault => .error fault
          | .ok s => (shape.member field state).run s

/-- A member takes its key. -/
theorem length_runMember {shape : Shape F S} {state state' : S} {s r : List Char}
    (h : shape.runMember state s = .ok (state', r)) : r.length < s.length := by
  unfold runMember at h
  split at h
  · contradiction
  · next h1 =>
    have := length_passMark h1
    split at h
    · contradiction
    · next h2 =>
      have := length_readText h2
      split at h
      · split at h
        · contradiction
        · next h3 =>
          have := length_passMark h3
          split at h
          · contradiction
          · next h4 =>
            have := length_pass h4
            simp only [Except.ok.injEq, Prod.mk.injEq] at h
            obtain ⟨-, rfl⟩ := h
            omega
      · split at h
        · contradiction
        · split at h
          · contradiction
          · next h3 =>
            have := length_passMark h3
            have := (shape.member _ _).shortens h
            omega

/-- The rest of an object. -/
def runMembers (shape : Shape F S) (first : Bool) (state : S) (s : List Char) :
    Except Fault (S × List Char) :=
  match _hn : nextItem '\x7d' first s with
  | .error fault => .error fault
  | .ok (false, r) => .ok (state, r)
  | .ok (true, r) =>
    match _hr : shape.runMember state r with
    | .error fault => .error fault
    | .ok (state, r) => runMembers shape false state r
termination_by s.length
decreasing_by
  have := length_nextItem _hn
  have := length_runMember _hr
  omega

/-- The members of an object may be none at all. -/
theorem length_runMembers {shape : Shape F S} {first : Bool} {state state' : S} {s r : List Char}
    (h : shape.runMembers first state s = .ok (state', r)) : r.length ≤ s.length := by
  fun_induction runMembers shape first state s <;> try contradiction
  · next hn =>
    have := length_nextItem hn
    simp_all
  · next hn state' r' hr ih =>
    have := length_nextItem hn
    have := length_runMember hr
    have := ih h
    omega

/-- The rest of an array that holds the values of `fields`, in order. The last ones may be missing;
there must be no further items. -/
def runElements (shape : Shape F S) : (fields : List F) → (first : Bool) → S → List Char →
    Except Fault (S × List Char)
  | [], _, state, s =>
    match passMark ']' s with
    | .error fault => .error fault
    | .ok s => .ok (state, s)
  | field :: fields, first, state, s =>
    match nextItem ']' first s with
    | .error fault => .error fault
    | .ok (false, s) => .ok (state, s)
    | .ok (true, s) =>
      match (shape.member field state).run s with
      | .error fault => .error fault
      | .ok (state, s) => runElements shape fields false state s

/-- The elements of an array may be none at all. -/
theorem length_runElements {shape : Shape F S} {fields : List F} {first : Bool} {state state' : S}
    {s r : List Char} (h : shape.runElements fields first state s = .ok (state', r)) :
    r.length ≤ s.length := by
  fun_induction runElements shape fields first state s <;> try contradiction
  · next hm =>
    have := length_passMark hm
    simp_all
    omega
  · next hn =>
    have := length_nextItem hn
    simp_all
  · next hn state' s' hr ih =>
    have := length_nextItem hn
    have := (shape.member _ _).shortens hr
    have := ih h
    omega

def run (shape : Shape F S) (state : S) (s : List Char) : Except Fault (S × List Char) :=
  match skipBlanks s with
  | [] => .error .truncated
  | c :: rest =>
    if c = '\x7b' then shape.runMembers true state rest
    else if c = '[' then shape.runElements shape.fields true state rest
    else .error (misfit (c :: rest))

/-- An object takes its opening bracket, and so does an array in its place. -/
theorem length_run {shape : Shape F S} {state state' : S} {s r : List Char}
    (h : shape.run state s = .ok (state', r)) : r.length < s.length := by
  have h0 := length_skipBlanks_le s
  unfold run at h
  split at h
  · contradiction
  · next hs =>
    rw [hs] at h0
    simp only [List.length_cons] at h0
    split at h
    · have := length_runMembers h
      omega
    · split at h
      · have := length_runElements h
        omega
      · contradiction

end Shape

/-- A record read into a state that is `start` before its first member. -/
def record (shape : Shape F S) (start : S) : Reader S where
  run := shape.run start
  shortens := Shape.length_run

end Reader

end IntervalDump.Json
