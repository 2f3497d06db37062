import IntervalDump.Proofs.Markup.Step
/-!
# What bytes do not depend on

Two things are written down in a lexer without deciding what a byte leads to: how many bytes were
read, and how many dashes of a comment in a document type declaration were remembered when the
refill began. `Lexer.blur` takes them out, the second one for good, and of the first one what a
function says.

* **A byte leads to the same, blurred** (`Lexer.feed_blur`), and so does the end of the input
  (`Lexer.finish?_blur`).
* **The end of a refill does nothing, blurred** (`Lexer.blur_endRefill`), unless dashes were
  remembered and a single one stands before it, which is then added to them.
-/

namespace IntervalDump.Markup

namespace Doctype

/-- The place without what was remembered when the refill began. -/
def forget : Doctype → Doctype
  | .comment _ dashes => .comment 0 dashes
  | d => d

/-- How many dashes of a comment were remembered when the refill began. -/
def kept : Doctype → Nat
  | .comment kept _ => kept
  | _ => 0

/-- How many dashes of a comment stand directly before this place, counted up to two. -/
def dashes : Doctype → Nat
  | .comment _ dashes => dashes
  | _ => 0

/-- A byte leads to the same, whatever was remembered. -/
theorem map_forget_feed (d : Doctype) (b : UInt8) :
    (d.forget.feed b).map forget = (d.feed b).map forget := by
  cases d with
  | comment kept dashes =>
    unfold forget feed
    dsimp only
    split_ifs <;> rfl
  | _ => rfl

/-- Outside comments, nothing is remembered. -/
theorem kept_feedOther (b : UInt8) : (feedOther b).kept = 0 := by
  unfold feedOther
  split_ifs <;> rfl

/-- No dash is remembered of a comment that has just begun. -/
theorem kept_feedOpening (read : List UInt8) (b : UInt8) : (feedOpening read b).kept = 0 := by
  have hall : ∀ entry ∈ openings, entry.2.kept = 0 := by decide
  unfold feedOpening
  split
  · next hfind => exact hall _ (List.mem_of_find?_eq_some hfind)
  · split_ifs
    · rfl
    · exact kept_feedOther b

/-- Nothing is remembered before the refill ends. -/
theorem kept_of_feed {d next : Doctype} {b : UInt8} (h : d.feed b = some next) :
    next.kept = 0 ∨ next.kept = d.kept := by
  rcases d with quote | _ | read | mark | ⟨kept, dashes⟩ | quote | _ | _
  case outside =>
    cases quote <;> simp only [feed] at h <;> split_ifs at h <;> cases h <;> exact .inl rfl
  case subset =>
    simp only [feed] at h
    split_ifs at h <;> cases h <;> exact .inl rfl
  case opening =>
    obtain rfl := Option.some.inj h
    exact .inl (kept_feedOpening _ b)
  case instruction =>
    simp only [feed] at h
    split_ifs at h <;> cases h <;> exact .inl rfl
  case comment =>
    simp only [feed] at h
    split_ifs at h <;> cases h
    · exact .inl rfl
    · exact .inr rfl
    · exact .inr rfl
  case declaration =>
    cases quote <;> simp only [feed] at h <;> split_ifs at h <;> cases h <;> exact .inl rfl
  case other =>
    obtain rfl := Option.some.inj h
    exact .inl (kept_feedOther b)
  case behind =>
    simp only [feed] at h
    split_ifs at h
    cases h
    exact .inl rfl

/-- The dashes are counted right, unless a single one is added to some that were remembered. -/
theorem remembered_eq {kept dashes : Nat} (h : kept = 0 ∨ dashes ≠ 1) :
    remembered kept dashes = dashes := by
  unfold remembered
  split_ifs with hone
  · obtain rfl := h.resolve_right fun hne => hne hone
    rw [hone]
    rfl
  · rfl

variable {d : Doctype}

/-- The end of a refill changes nothing but what is remembered. -/
theorem forget_endRefill (h : d.kept = 0 ∨ d.dashes ≠ 1) : d.endRefill.forget = d.forget := by
  cases d with
  | comment kept dashes => exact congrArg (comment 0) (remembered_eq h)
  | _ => rfl

/-- At the end of a refill, the dashes that stand there are remembered. -/
theorem kept_endRefill (h : d.kept = 0 ∨ d.dashes ≠ 1) : d.endRefill.kept = d.dashes := by
  cases d with
  | comment kept dashes => exact remembered_eq h
  | _ => rfl

/-- What is forgotten is forgotten at once. -/
@[simp] theorem forget_forget (d : Doctype) : d.forget.forget = d.forget := by
  cases d <;> rfl

/-- The dashes that stand there are not forgotten. -/
@[simp] theorem dashes_forget (d : Doctype) : d.forget.dashes = d.dashes := by
  cases d <;> rfl

end Doctype

namespace Lexer

/-! ## Blurred lexers -/

/-- The function keeps so little of a position that it can be used on the way. -/
structure Blurs (place : Nat → Nat) : Prop where
  add : ∀ position n, place (place position + n) = place (position + n)
  sub : ∀ position n, place (place position - n) = place (position - n)

/-- Nothing may be lost of a position. -/
theorem blurs_id : Blurs id :=
  ⟨fun _ _ => rfl, fun _ _ => rfl⟩

/-- All may be lost of it. -/
theorem blurs_zero : Blurs fun _ => 0 :=
  ⟨fun _ _ => rfl, fun _ _ => rfl⟩

/-- What is lost of a position is lost at once. -/
theorem Blurs.self {place : Nat → Nat} (h : Blurs place) (position : Nat) :
    place (place position) = place position :=
  h.add position 0

/-- The mode without what was remembered when the refill began. -/
def Mode.forget : Mode → Mode
  | .doctype place => .doctype place.forget
  | mode => mode

/-- The lexer without the dashes that were remembered, and with what `place` says of its
position. -/
def blur (place : Nat → Nat) (l : Lexer) : Lexer :=
  { l with mode := l.mode.forget, position := place l.position }

/-- The step with a blurred lexer or position. -/
def Step.blur (place : Nat → Nat) : Step → Step
  | .quiet next => .quiet (next.blur place)
  | .token tag next => .token tag (next.blur place)
  | .fault position tokenFault => .fault (place position) tokenFault

section Blurring

variable {place : Nat → Nat} (hplace : Blurs place) (l : Lexer)
include hplace

/-- What is lost of a lexer is lost at once. -/
theorem blur_self : (l.blur place).blur place = l.blur place := by
  have hmode : l.mode.forget.forget = l.mode.forget := by
    cases l.mode with
    | doctype d => exact congrArg Mode.doctype d.forget_forget
    | _ => rfl
  simp only [blur, hplace.self, hmode]

/-- Passing a byte does not depend on what is lost. -/
theorem blur_pass (mode : Mode) :
    ((l.blur place).pass mode).blur place = (l.pass mode).blur place := by
  simp only [blur, pass, hplace.add]

/-- Passing a byte that moves the stack does not depend on what is lost. -/
theorem blur_pass_opened (mode : Mode) (opened : List (List UInt8)) :
    { (l.blur place).pass mode with opened }.blur place =
      { l.pass mode with opened }.blur place := by
  simp only [blur, pass, hplace.add]

/-- Keeping a byte does not depend on what is lost. -/
theorem blur_keep {mode mode' : Mode} (hmode : mode.forget = mode'.forget) (b : UInt8) :
    ((l.blur place).keep mode b).blur place = (l.keep mode' b).blur place := by
  simp only [blur, keep, hplace.add, hmode]

/-- A step that passes a byte does not depend on what is lost. -/
theorem blur_quiet_pass (mode : Mode) :
    (Step.quiet ((l.blur place).pass mode)).blur place = (Step.quiet (l.pass mode)).blur place :=
  congrArg Step.quiet (blur_pass hplace l mode)

/-- A step that keeps a byte does not depend on what is lost. -/
theorem blur_quiet_keep {mode mode' : Mode} (hmode : mode.forget = mode'.forget) (b : UInt8) :
    (Step.quiet ((l.blur place).keep mode b)).blur place =
      (Step.quiet (l.keep mode' b)).blur place :=
  congrArg Step.quiet (blur_keep hplace l hmode b)

/-- A fault behind this byte is placed as well as the byte is. -/
theorem blur_fault_add (n : Nat) (fault : TokenFault) :
    (Step.fault ((l.blur place).position + n) fault).blur place =
      (Step.fault (l.position + n) fault).blur place :=
  congrArg (Step.fault · fault) (hplace.add l.position n)

/-- A fault before this byte is placed as well as the byte is. -/
theorem blur_fault_sub (n : Nat) (fault : TokenFault) :
    (Step.fault ((l.blur place).position - n) fault).blur place =
      (Step.fault (l.position - n) fault).blur place :=
  congrArg (Step.fault · fault) (hplace.sub l.position n)

/-- **A byte of a start tag leads to the same, blurred.** -/
theorem blur_feedStart (quote : Option UInt8) (b : UInt8) :
    ((l.blur place).feedStart quote b).blur place = (l.feedStart quote b).blur place := by
  have hseen : (l.blur place).seen = l.seen := rfl
  unfold feedStart
  cases quote with
  | some q => exact blur_quiet_keep hplace l rfl b
  | none =>
    dsimp only
    split_ifs
    · rw [hseen]
      rcases l.seen with _ | ⟨last, rest⟩
      · exact congrArg (Step.token _) (blur_pass_opened hplace l _ _)
      · dsimp only
        split_ifs
        · exact congrArg (Step.token _) (blur_pass hplace l _)
        · exact congrArg (Step.token _) (blur_pass_opened hplace l _ _)
    · exact blur_quiet_keep hplace l rfl b
    · exact blur_quiet_keep hplace l rfl b

/-- A completed end tag leads to the same, blurred. -/
theorem blur_closeElement (name : List UInt8) :
    ((l.blur place).closeElement name).blur place = (l.closeElement name).blur place := by
  have hopened : (l.blur place).opened = l.opened := rfl
  unfold closeElement
  rw [hopened]
  rcases l.opened with _ | ⟨innermost, outer⟩
  · exact blur_fault_add hplace l 1 _
  · dsimp only
    split_ifs
    · exact congrArg (Step.token _) (blur_pass_opened hplace l _ _)
    · exact blur_fault_add hplace l 1 _

/-- A byte of an end tag leads to the same, blurred. -/
theorem blur_feedEnd (quote : Option UInt8) (b : UInt8) :
    ((l.blur place).feedEnd quote b).blur place = (l.feedEnd quote b).blur place := by
  unfold feedEnd
  cases quote with
  | some q => exact blur_quiet_keep hplace l rfl b
  | none =>
    dsimp only
    split_ifs
    · exact blur_closeElement hplace l _
    · exact blur_quiet_keep hplace l rfl b
    · exact blur_quiet_keep hplace l rfl b

/-- The end of other markup leads to the same, blurred. -/
theorem blur_passMarkup (wellBegun : Bool) (fault : TokenFault) :
    ((l.blur place).passMarkup wellBegun fault).blur place =
      (l.passMarkup wellBegun fault).blur place := by
  cases wellBegun with
  | true => exact blur_quiet_pass hplace l _
  | false => exact blur_fault_add hplace l 1 _

/-- The end of a document type declaration leads to the same, blurred. -/
theorem blur_closeDoctype :
    (l.blur place).closeDoctype.blur place = l.closeDoctype.blur place := by
  have hmarkup : (l.blur place).markup = l.markup := rfl
  unfold closeDoctype
  rw [hmarkup]
  dsimp only
  split_ifs
  · exact blur_fault_add hplace l 1 _
  · exact blur_quiet_pass hplace l _
  · exact blur_fault_add hplace l 1 _

/-- **A byte leads to the same from a blurred lexer**, but for what is blurred. -/
theorem feed_blur (b : UInt8) : ((l.blur place).feed b).blur place = (l.feed b).blur place := by
  have hseen : (l.blur place).seen = l.seen := rfl
  have hmarkup : (l.blur place).markup = l.markup := rfl
  have hmode : (l.blur place).mode = l.mode.forget := rfl
  unfold feed
  rw [hmode, hseen, hmarkup]
  rcases l.mode with _ | _ | _ | _ | _ | _ | d | _ | quote | quote <;>
    simp only [Mode.forget]
  case text => split_ifs <;> exact blur_quiet_pass hplace l _
  case reference =>
    split_ifs
    · exact blur_quiet_pass hplace l _
    · exact blur_fault_add hplace l 0 _
    · exact blur_quiet_pass hplace l _
  case opened =>
    split_ifs
    · exact blur_quiet_keep hplace l rfl b
    · exact blur_quiet_keep hplace l rfl b
    · exact blur_quiet_keep hplace l rfl b
    · exact blur_feedStart hplace l none b
  case declared =>
    split_ifs
    · exact blur_quiet_keep hplace l rfl b
    · exact blur_quiet_keep hplace l rfl b
    · exact blur_quiet_keep hplace l rfl b
    · exact blur_fault_sub hplace l 2 _
  case comment =>
    split_ifs
    · exact blur_passMarkup hplace l _ _
    · exact blur_quiet_keep hplace l rfl b
  case cdata =>
    split_ifs
    · exact blur_passMarkup hplace l _ _
    · exact blur_quiet_keep hplace l rfl b
  case doctype =>
    have hfeed := d.map_forget_feed b
    rcases hforgotten : d.forget.feed b with _ | next <;> rcases hnext : d.feed b with _ | next' <;>
      rw [hforgotten, hnext] at hfeed <;> simp only [Option.map] at hfeed
    · exact blur_closeDoctype hplace l
    · cases hfeed
    · cases hfeed
    · have hmode : (Mode.doctype next).forget = (Mode.doctype next').forget :=
        congrArg Mode.doctype (Option.some.inj hfeed)
      exact blur_quiet_keep hplace l hmode b
  case instruction =>
    split_ifs
    · exact blur_passMarkup hplace l _ _
    · exact blur_quiet_keep hplace l rfl b
  case startTag => exact blur_feedStart hplace l quote b
  case endTag => exact blur_feedEnd hplace l quote b

/-- Where the lexer stands is placed as well as its position is. -/
theorem stand_blur : place (l.blur place).stand = place l.stand := by
  have hmode : (l.blur place).mode = l.mode.forget := rfl
  have hposition : (l.blur place).position = place l.position := rfl
  unfold stand
  rw [hmode, hposition]
  cases l.mode <;> first | exact hplace.sub _ _ | exact hplace.self _

end Blurring

/-- The end of the input shows the same, blurred. -/
theorem finish?_blur (place : Nat → Nat) (l : Lexer) : (l.blur place).finish? = l.finish? := by
  have hmode : (l.blur place).mode = l.mode.forget := rfl
  have hmarkup : (l.blur place).markup = l.markup := rfl
  unfold finish?
  rw [hmode, hmarkup]
  cases l.mode <;> rfl

/-! ## What is remembered -/

/-- How many dashes are remembered from the refills before. -/
def kept (l : Lexer) : Nat :=
  match l.mode with
  | .doctype place => place.kept
  | _ => 0

/-- How many dashes stand directly before the next byte, if it belongs to a comment in a document
type declaration; they are counted up to two. -/
def dashes (l : Lexer) : Nat :=
  match l.mode with
  | .doctype place => place.dashes
  | _ => 0

/-- The dashes that stand there are not lost. -/
@[simp] theorem dashes_blur (place : Nat → Nat) (l : Lexer) : (l.blur place).dashes = l.dashes := by
  obtain ⟨mode, seen, opened, position⟩ := l
  cases mode with
  | doctype d => exact d.dashes_forget
  | _ => rfl

/-- **The end of a refill does nothing**, if no dashes were remembered or not a single one stands
before it, but that the dashes before it are remembered now. -/
theorem blur_endRefill (place : Nat → Nat) {l : Lexer} (h : l.kept = 0 ∨ l.dashes ≠ 1) :
    l.endRefill.blur place = l.blur place := by
  obtain ⟨mode, seen, opened, position⟩ := l
  cases mode with
  | doctype d =>
    have hforget : d.endRefill.forget = d.forget := Doctype.forget_endRefill h
    simp only [endRefill, blur, Mode.forget, hforget]
  | _ => rfl

/-- At the end of a refill, the dashes that stand there are remembered. -/
theorem kept_endRefill {l : Lexer} (h : l.kept = 0 ∨ l.dashes ≠ 1) :
    l.endRefill.kept = l.dashes := by
  obtain ⟨mode, seen, opened, position⟩ := l
  cases mode with
  | doctype d => exact Doctype.kept_endRefill h
  | _ => rfl

/-- Between two refills, what is remembered stays or is forgotten. -/
theorem kept_of_next? {l m : Lexer} {b : UInt8} (hnext : (l.feed b).next? = some m) :
    m.kept = 0 ∨ m.kept = l.kept := by
  have hfeeds := feeds_feed l b
  rcases hstep : l.feed b with next | ⟨token, next⟩ | ⟨position, fault⟩ <;>
    rw [hstep] at hfeeds hnext <;> cases hnext
  · cases hfeeds with
    | pass mode hmode => exact .inl (by cases mode <;> trivial)
    | begin => exact .inl rfl
    | keep mode hmarkup hmode hnew hend hplace =>
      cases mode with
      | doctype next =>
        rcases hplace next rfl with rfl | ⟨earlier, hearlier, hfeed⟩
        · exact .inl rfl
        · have hkept : l.kept = earlier.kept := by rw [kept, hearlier]
          rw [hkept]
          exact Doctype.kept_of_feed hfeed
      | _ => exact .inl rfl
  · cases hfeeds <;> exact .inl rfl

end Lexer

end IntervalDump.Markup
