import Mathlib.Data.List.Forall2
import IntervalDump.Proofs.Delivery.Nesting
import IntervalDump.Proofs.Delivery.Script
import IntervalDump.Proofs.Markup.Step
import IntervalDump.Proofs.Markup.TagBytes
/-!
# Two stacks in step

The lexer keeps the raw names of the open elements, a delivery keeps the names they decode to, and
neither looks at the other's. This file shows that they move together.

* **The lexer's stack** (`Lexer.feed_follows`): a start tag puts its name on it, an end tag takes
  exactly its own name off it, and nothing else moves it.
* **In step** (`InStep`): behind some events, the names pending are the decoded names of the
  lexer's stack, they are what the events leave open, and the elements were counted.
* **A script keeps step** (`Keeps`): if its reader was in step, so is the reader it results in, and
  even a script that ends with a fault leaves the events nested. This holds of a token, a byte, a
  refill and a document (`keeps_readToken` to `keeps_refills`).
-/

namespace IntervalDump

open Markup (Lexer Token)

/-! ## The stack of the lexer -/

namespace Markup.Lexer

/-- How a step moves the stack that stood at `opened`. -/
def Step.Follows (opened : List (List UInt8)) : Step → Prop
  | .quiet next => next.opened = opened
  | .token (.start content) next => next.opened = nameOf content :: opened
  | .token (.empty _) next => next.opened = opened
  | .token (.finish name) next => opened = name :: next.opened
  | .fault _ _ => True

variable (l : Lexer) (b : UInt8)

/-- **No byte moves the stack but the last one of a tag.** -/
theorem feed_follows : (l.feed b).Follows l.opened := by
  have hfeeds := feeds_feed l b
  generalize l.feed b = step at hfeeds ⊢
  cases hfeeds with
  | pass => rfl
  | begin => rfl
  | keep => rfl
  | start => rfl
  | empty => rfl
  | finish outer _ _ hopened => exact hopened
  | fault => trivial

/-- The end of a refill opens and closes nothing. -/
@[simp] theorem opened_endRefill : l.endRefill.opened = l.opened := by
  unfold endRefill
  split <;> rfl

end Markup.Lexer

/-! ## A reader in step -/

/-- Behind these elements, the reader knows which of them are open, and so does the lexer. -/
structure InStep (events : List Event) (s : Standing) : Prop where
  leaves : Leaves events s.pending
  elements : events.countP Event.isStart = s.elements
  opened : List.Forall₂ (fun raw name => Name.decode raw = .ok name) s.lexer.opened s.pending

/-- Read behind these elements, a script leaves them nested, and its reader in step. -/
structure Keeps (events : List Event) (script : Script Standing) : Prop where
  leaves : ∃ pending, Leaves (events ++ script.events) pending
  inStep : ∀ s, script.result = .ok s → InStep (events ++ script.events) s

variable {events : List Event} {s : Standing}

/-- Before the first byte, nothing is open. -/
theorem inStep_nil : InStep [] {} :=
  ⟨.nil, rfl, .nil⟩

/-- A start tag opens an element for the reader and for the lexer. -/
theorem InStep.start (hs : InStep events s) (name : Name) (attributes : List Attribute)
    {raw : List UInt8} (hraw : Name.decode raw = .ok name) (lexer : Lexer)
    (hlexer : lexer.opened = raw :: s.lexer.opened) :
    InStep (events ++ [.startElement name attributes])
      ⟨lexer, name :: s.pending, s.elements + 1⟩ where
  leaves := .start name attributes hs.leaves
  elements := by
    rw [List.countP_append, hs.elements]
    rfl
  opened := by
    rw [hlexer]
    exact .cons hraw hs.opened

/-- An end tag closes an element for both. -/
theorem InStep.finish (hs : InStep events s) {name : Name} {pending : List Name}
    (hpending : s.pending = name :: pending) {raw : List UInt8} (lexer : Lexer)
    (hlexer : s.lexer.opened = raw :: lexer.opened) :
    InStep (events ++ [.endElement name]) ⟨lexer, pending, s.elements⟩ where
  leaves := .finish (hpending ▸ hs.leaves)
  elements := by
    rw [List.countP_append, hs.elements]
    rfl
  opened := by
    have hopened := hs.opened
    rw [hpending, hlexer] at hopened
    exact (List.forall₂_cons.mp hopened).2

/-- **The name of an end tag decodes to the name of the innermost pending element.** -/
theorem InStep.exists_pending (hs : InStep events s) {raw : List UInt8}
    {opened : List (List UInt8)} (hopened : s.lexer.opened = raw :: opened) :
    ∃ name outer, Name.decode raw = .ok name ∧ s.pending = name :: outer := by
  have hboth := hs.opened
  rw [hopened] at hboth
  obtain ⟨name, outer, hname, -, hpending⟩ := List.forall₂_cons_left_iff.mp hboth
  exact ⟨name, outer, hname, hpending⟩

/-- A lexer with the same stack is in step too. -/
theorem InStep.withLexer (hs : InStep events s) {lexer : Lexer}
    (hlexer : lexer.opened = s.lexer.opened) : InStep events { s with lexer } where
  leaves := hs.leaves
  elements := hs.elements
  opened := by
    rw [hlexer]
    exact hs.opened

/-! ## Scripts that keep step -/

/-- A fault leaves what was given nested. -/
theorem InStep.keeps_stop (hs : InStep events s) (fault : Markup.Fault) :
    Keeps events (.stop fault) where
  leaves := ⟨s.pending, by rw [Script.stop, List.append_nil]; exact hs.leaves⟩
  inStep _ hresult := by cases hresult

/-- A script that goes on keeps step if both parts do. -/
theorem Keeps.bind {script : Script Standing} (hscript : Keeps events script)
    {next : Standing → Script Standing}
    (hnext : ∀ s, InStep (events ++ script.events) s → Keeps (events ++ script.events) (next s)) :
    Keeps events (script >>= next) := by
  rcases hresult : script.result with fault | s
  · rw [Script.bind_of_error hresult]
    exact ⟨hscript.leaves, fun _ hok => by cases hok⟩
  · have hs := hnext s (hscript.inStep s hresult)
    rw [Script.bind_of_ok hresult]
    constructor
    · rw [← List.append_assoc]
      exact hs.leaves
    · intro s' hok
      rw [← List.append_assoc]
      exact hs.inStep s' hok

/-- What was given by a reader in step keeps step. -/
theorem InStep.keeps {new : List Event} (hs : InStep (events ++ new) s) :
    Keeps events ⟨new, .ok s⟩ where
  leaves := ⟨s.pending, hs.leaves⟩
  inStep _ hok := by
    cases hok
    exact hs

/-- Giving nothing keeps step. -/
theorem InStep.keeps_pure (hs : InStep events s) : Keeps events (pure s) :=
  InStep.keeps (by rwa [List.append_nil])

/-- **A completed tag keeps step**, if the lexer moved its stack for it. -/
theorem keeps_readToken (hs : InStep events s) {token : Token} {lexer : Lexer}
    (hfollows : (Lexer.Step.token token lexer).Follows s.lexer.opened) :
    Keeps events (Standing.readToken token { s with lexer }) := by
  cases token with
  | start content =>
    simp only [Standing.readToken]
    rcases htag : Markup.decodeTag content with fault | tag
    · exact hs.keeps_stop fault
    · obtain ⟨name, attributes⟩ := tag
      exact (hs.start name attributes (Markup.decodeTag_ok htag).1 lexer hfollows).keeps
  | empty content =>
    simp only [Standing.readToken]
    rcases htag : Markup.decodeTag content with fault | tag
    · exact hs.keeps_stop fault
    · obtain ⟨name, attributes⟩ := tag
      -- between its two events the element is pending, as if the lexer had put it on its stack
      have hstarted := hs.start name attributes (Markup.decodeTag_ok htag).1
        { lexer with opened := Markup.nameOf content :: lexer.opened } (congrArg _ hfollows)
      have hfinished := hstarted.finish rfl lexer rfl
      rw [List.append_assoc] at hfinished
      exact hfinished.keeps
  | finish raw =>
    simp only [Standing.readToken]
    obtain ⟨name, outer, hname, hpending⟩ := hs.exists_pending hfollows
    rw [hname, hpending]
    exact (hs.finish hpending lexer hfollows).keeps

/-- **A byte keeps step.** -/
theorem keeps_readByte (hs : InStep events s) (b : UInt8) : Keeps events (s.readByte b) := by
  have hfollows := Lexer.feed_follows s.lexer b
  unfold Standing.readByte
  cases hfeed : s.lexer.feed b with
  | quiet lexer =>
    rw [hfeed] at hfollows
    exact (hs.withLexer hfollows).keeps_pure
  | token token lexer =>
    rw [hfeed] at hfollows
    exact keeps_readToken hs hfollows
  | fault position fault => exact hs.keeps_stop _

/-- Reading in a row keeps step if every single reading does. -/
theorem keeps_foldlM {α : Type} {read : Standing → α → Script Standing}
    (hread : ∀ {events s}, InStep events s → ∀ a, Keeps events (read s a)) (hs : InStep events s)
    (entries : List α) : Keeps events (entries.foldlM read s) := by
  induction entries generalizing events s with
  | nil => exact hs.keeps_pure
  | cons entry entries ih =>
    rw [List.foldlM_cons]
    exact (hread hs entry).bind fun s hs => ih hs

/-- A refill keeps step. -/
theorem keeps_readRefill (hs : InStep events s) (refill : List UInt8) :
    Keeps events (s.readRefill refill) := by
  refine (keeps_foldlM keeps_readByte hs refill).bind ?_
  intro s hs
  exact (hs.withLexer (Lexer.opened_endRefill s.lexer)).keeps_pure

/-- All refills keep step. -/
theorem keeps_refills (hs : InStep events s) (refills : List (List UInt8)) :
    Keeps events (refills.foldlM Standing.readRefill s) :=
  keeps_foldlM keeps_readRefill hs refills

end IntervalDump
