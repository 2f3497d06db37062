import Mathlib.Tactic.SplitIfs
import IntervalDump.Markup.Lexer
/-!
# What one byte can do

`Lexer.Feeds` lists everything that a byte can lead to: it is passed over, it begins markup, it is
kept as a byte of markup, it completes one of the three tags, or it shows a fault.

**Theorem** (`Lexer.feeds_feed`): every byte does one of these. Whatever holds of a lexer at all
times is shown by going through this list.
-/

namespace IntervalDump.Markup.Lexer

/-- The next byte belongs to markup, not to text. -/
def Mode.isMarkup : Mode → Bool
  | .text | .reference => false
  | _ => true

/-- The mode is that of an end tag. -/
def Mode.isEndTag : Mode → Bool
  | .endTag _ => true
  | _ => false

/-- The lexer behind a byte that shows no fault. -/
def Step.next? : Step → Option Lexer
  | .quiet next => some next
  | .token _ next => some next
  | .fault _ _ => none

/-- What a byte can lead to. -/
inductive Feeds (l : Lexer) (b : UInt8) : Step → Prop
  | pass (mode : Mode) (hmode : mode.isMarkup = false) : Feeds l b (.quiet (l.pass mode))
  | begin (htext : l.mode = .text) (hb : b = '<'.toUInt8) : Feeds l b (.quiet (l.pass .opened))
  | keep (mode : Mode) (hmarkup : l.mode.isMarkup) (hmode : mode.isMarkup) (hnew : mode ≠ .opened)
      (hend : mode.isEndTag → l.mode.isEndTag ∨ l.mode = .opened ∧ b = '/'.toUInt8)
      (hplace : ∀ next, mode = .doctype next →
        next = .outside none ∨ ∃ place, l.mode = .doctype place ∧ place.feed b = some next) :
      Feeds l b (.quiet (l.keep mode b))
  | start (hmarkup : l.mode.isMarkup) (hb : b = '>'.toUInt8) :
      Feeds l b (.token (.start l.markup)
        { l.pass .text with opened := nameOf l.markup :: l.opened })
  | empty (content : List UInt8) (hmarkup : l.mode.isMarkup) (hb : b = '>'.toUInt8)
      (hcontent : l.markup = content ++ ['/'.toUInt8]) :
      Feeds l b (.token (.empty content) (l.pass .text))
  | finish (outer : List (List UInt8)) (htag : l.mode.isEndTag) (hb : b = '>'.toUInt8)
      (hopened : l.opened = endName (l.markup.drop 1) :: outer) :
      Feeds l b (.token (.finish (endName (l.markup.drop 1))) { l.pass .text with opened := outer })
  | fault (position : Nat) (fault : TokenFault) : Feeds l b (.fault position fault)

variable {l : Lexer} {b : UInt8}

/-- What a byte of a start tag does. -/
theorem feeds_feedStart (hmarkup : l.mode.isMarkup) (quote : Option UInt8) :
    Feeds l b (l.feedStart quote b) := by
  unfold feedStart
  cases quote with
  | some quote => exact .keep _ hmarkup rfl nofun nofun nofun
  | none =>
    by_cases hb : b = '>'.toUInt8
    · rw [if_pos hb]
      rcases hseen : l.seen with _ | ⟨last, rest⟩
      · have hnone : l.markup = [] := by rw [markup, hseen, List.reverse_nil]
        have hstart := Feeds.start hmarkup hb
        rwa [hnone] at hstart
      · dsimp only
        by_cases hlast : last = '/'.toUInt8
        · rw [if_pos hlast]
          refine .empty _ hmarkup hb ?_
          rw [markup, hseen, List.reverse_cons, hlast]
        · rw [if_neg hlast]
          exact .start hmarkup hb
    · rw [if_neg hb]
      exact .keep _ hmarkup rfl nofun nofun nofun

/-- What a byte of an end tag does. -/
theorem feeds_feedEnd (htag : l.mode.isEndTag) (hmarkup : l.mode.isMarkup) (quote : Option UInt8) :
    Feeds l b (l.feedEnd quote b) := by
  unfold feedEnd
  cases quote with
  | some quote => exact .keep _ hmarkup rfl nofun (fun _ => .inl htag) nofun
  | none =>
    by_cases hb : b = '>'.toUInt8
    · rw [if_pos hb, closeElement]
      rcases hopened : l.opened with _ | ⟨innermost, outer⟩
      · exact .fault _ _
      · dsimp only
        by_cases hname : innermost = endName (l.markup.drop 1)
        · rw [if_pos hname]
          exact .finish outer htag hb (by rw [hopened, hname])
        · rw [if_neg hname]
          exact .fault _ _
    · rw [if_neg hb]
      exact .keep _ hmarkup rfl nofun (fun _ => .inl htag) nofun

/-- What the end of other markup does. -/
theorem feeds_passMarkup (wellBegun : Bool) (fault : TokenFault) :
    Feeds l b (l.passMarkup wellBegun fault) := by
  cases wellBegun with
  | true => exact .pass .text rfl
  | false => exact .fault _ _

/-- What the end of a document type declaration does. -/
theorem feeds_closeDoctype : Feeds l b l.closeDoctype := by
  unfold closeDoctype
  dsimp only
  split_ifs
  · exact .fault _ _
  · exact .pass .text rfl
  · exact .fault _ _

/-- **Every byte does one of the things that are listed.** -/
theorem feeds_feed (l : Lexer) (b : UInt8) : Feeds l b (l.feed b) := by
  unfold feed
  rcases hmode : l.mode with _ | _ | _ | _ | _ | _ | place | _ | quote | quote <;> dsimp only
  case text =>
    split_ifs with hopen
    · exact .begin hmode hopen
    · exact .pass .reference rfl
    · exact .pass .text rfl
  case reference =>
    split_ifs
    · exact .pass .text rfl
    · exact .fault _ _
    · exact .pass .reference rfl
  -- only here may a byte begin an end tag
  case opened =>
    have hmarkup : l.mode.isMarkup := by rw [hmode]; rfl
    split_ifs with _ hslash
    · exact .keep _ hmarkup rfl nofun nofun nofun
    · exact .keep _ hmarkup rfl nofun (fun _ => .inr ⟨hmode, hslash⟩) nofun
    · exact .keep _ hmarkup rfl nofun nofun nofun
    · exact feeds_feedStart hmarkup none
  case declared =>
    have hmarkup : l.mode.isMarkup := by rw [hmode]; rfl
    split_ifs
    · exact .keep _ hmarkup rfl nofun nofun nofun
    · exact .keep _ hmarkup rfl nofun nofun nofun
    · exact .keep _ hmarkup rfl nofun nofun fun next hnext => .inl (Mode.doctype.inj hnext).symm
    · exact .fault _ _
  case comment =>
    split_ifs
    · exact feeds_passMarkup _ _
    · exact .keep _ (by rw [hmode]; rfl) rfl nofun nofun nofun
  case cdata =>
    split_ifs
    · exact feeds_passMarkup _ _
    · exact .keep _ (by rw [hmode]; rfl) rfl nofun nofun nofun
  case doctype =>
    cases hfeed : place.feed b with
    | some next =>
      refine .keep _ (by rw [hmode]; rfl) rfl nofun nofun fun _ hnext => ?_
      obtain rfl := Mode.doctype.inj hnext
      exact .inr ⟨place, hmode, hfeed⟩
    -- the declaration has no further place: the byte ends it
    | none => exact feeds_closeDoctype
  case instruction =>
    split_ifs
    · exact feeds_passMarkup _ _
    · exact .keep _ (by rw [hmode]; rfl) rfl nofun nofun nofun
  case startTag => exact feeds_feedStart (by rw [hmode]; rfl) quote
  case endTag => exact feeds_feedEnd (by rw [hmode]; rfl) (by rw [hmode]; rfl) quote

end IntervalDump.Markup.Lexer
