import IntervalDump.Dump
import IntervalDump.Proofs.Delivery.Cut
import IntervalDump.Proofs.Delivery.Protocol
import IntervalDump.Proofs.Markup.Blur
/-!
# How a document is cut into refills

**Theorem** (`deliver_refills`): a text is delivered in refills as it is delivered in one piece,
provided that no refill but the last begins behind a dash and ends behind a single one, both of
comments in a document type declaration (`DashesCounted`). A byte order mark that a refill cuts is
counted in the positions of faults, and in nothing else.

Without that condition it is not so (`deliver_refills_loneDashes`): the two dashes are added up, and
a `>` behind them is taken for the end of the comment.

Readings are compared as they are when blurred (`Script.blur`): without the dashes that are
remembered, and with as much of a position as both must have in common. Every step from a blurred
reader leads to the same blurred script (`Standing.blur_readByte`), and so does every list of bytes.
Sources of the same bytes then give the same (`Source.blur_script_congr`, `Source.script_congr`).
-/

namespace IntervalDump

open Markup (Lexer)

/-! ## Blurred scripts -/

/-- The fault with what `place` says of its position. -/
def Markup.Fault.blur (place : Nat → Nat) : Markup.Fault → Markup.Fault
  | .token position fault => .token (place position) fault
  | .unclosed element position => .unclosed element (place position)
  | fault => fault

/-- Nothing is lost of a fault if the whole position counts. -/
theorem Markup.Fault.blur_id (fault : Markup.Fault) : fault.blur id = fault := by
  cases fault <;> rfl

namespace Script

variable {α β : Type}

/-- The script with a blurred fault, and with what `view` says of its result. -/
def blur (place : Nat → Nat) (view : α → α) (script : Script α) : Script α :=
  ⟨script.events, (script.result.map view).mapError (Markup.Fault.blur place)⟩

/-- Nothing is lost of a script. -/
theorem blur_id (script : Script α) : script.blur id id = script := by
  obtain ⟨events, fault | a⟩ := script
  · exact congrArg (fun f => (⟨events, .error f⟩ : Script α)) fault.blur_id
  · rfl

variable {place : Nat → Nat} (hplace : Lexer.Blurs place)
include hplace

/-- What is lost of a fault is lost at once. -/
theorem blur_blur_fault (fault : Markup.Fault) :
    (fault.blur place).blur place = fault.blur place := by
  cases fault <;> simp only [Markup.Fault.blur, hplace.self]

/-- A script may be blurred before it goes on, if the rest does not depend on what is lost. -/
theorem blur_bind {view : α → α} {view' : β → β} {next : α → Script β}
    (hnext : ∀ a, (next (view a)).blur place view' = (next a).blur place view')
    (script : Script α) :
    (script.blur place view >>= next).blur place view' = (script >>= next).blur place view' := by
  rcases hresult : script.result with fault | a
  · have hblurred : (script.blur place view).result = .error (fault.blur place) := by
      rw [blur, hresult]
      rfl
    rw [bind_of_error hblurred, bind_of_error hresult]
    exact congrArg (fun f => (⟨script.events, .error f⟩ : Script β)) (blur_blur_fault hplace fault)
  · have hblurred : (script.blur place view).result = .ok (view a) := by
      rw [blur, hresult]
      rfl
    obtain ⟨hevents, hrest⟩ := Script.mk.inj (hnext a)
    rw [bind_of_ok hblurred, bind_of_ok hresult, blur, blur, hevents, hrest]
    rfl

/-- Scripts that are the same, blurred, go on in the same way. -/
theorem blur_bind_congr {view : α → α} {view' : β → β} {next : α → Script β}
    (hnext : ∀ a, (next (view a)).blur place view' = (next a).blur place view')
    {first second : Script α} (h : first.blur place view = second.blur place view) :
    (first >>= next).blur place view' = (second >>= next).blur place view' := by
  rw [← blur_bind hplace hnext first, h, blur_bind hplace hnext second]

omit hplace in
/-- Behind the same script, what comes next may be replaced. -/
theorem blur_bind_congr_right {view : β → β} {first : Script α} {next next' : α → Script β}
    (h : ∀ a, first.result = .ok a → (next a).blur place view = (next' a).blur place view) :
    (first >>= next).blur place view = (first >>= next').blur place view := by
  rcases hresult : first.result with fault | a
  · rw [bind_of_error hresult, bind_of_error hresult]
  · obtain ⟨hevents, hresults⟩ := Script.mk.inj (h a hresult)
    rw [bind_of_ok hresult, bind_of_ok hresult, blur, blur, hevents, hresults]

end Script

namespace Standing

/-- What a step of the lexer gives. -/
def follow (s : Standing) : Lexer.Step → Script Standing
  | .quiet lexer => pure { s with lexer }
  | .token token lexer => readToken token { s with lexer }
  | .fault position fault => .stop (.token position fault)

/-- A byte that is read is followed by what the lexer makes of it. -/
theorem readByte_eq_follow (s : Standing) (b : UInt8) :
    s.readByte b = s.follow (s.lexer.feed b) := by
  unfold readByte
  cases s.lexer.feed b <;> rfl

/-- The reader with a blurred lexer. -/
def blur (place : Nat → Nat) (s : Standing) : Standing :=
  { s with lexer := s.lexer.blur place }

section Blurring

variable {place : Nat → Nat} (hplace : Lexer.Blurs place)
include hplace

/-- What is lost of a reader is lost at once. -/
theorem blur_self (s : Standing) : (s.blur place).blur place = s.blur place := by
  rw [blur, blur, Lexer.blur_self hplace]

omit hplace in
/-- A tag leads to the same, whatever is lost of the lexer behind it. -/
theorem blur_readToken {lexer lexer' : Lexer} (hlexer : lexer.blur place = lexer'.blur place)
    (token : Markup.Token) (s : Standing) :
    (readToken token { s with lexer }).blur place (blur place) =
      (readToken token { s with lexer := lexer' }).blur place (blur place) := by
  cases token with
  | start content =>
    simp only [readToken]
    rcases Markup.decodeTag content with fault | ⟨name, attributes⟩
    · rfl
    · exact congrArg (fun l => (⟨[.startElement name attributes],
        .ok ⟨l, name :: s.pending, s.elements + 1⟩⟩ : Script Standing)) hlexer
  | empty content =>
    simp only [readToken]
    rcases Markup.decodeTag content with fault | ⟨name, attributes⟩
    · rfl
    · exact congrArg (fun l => (⟨[.startElement name attributes, .endElement name],
        .ok ⟨l, s.pending, s.elements + 1⟩⟩ : Script Standing)) hlexer
  | finish raw =>
    simp only [readToken]
    rcases Name.decode raw with fault | name
    · rfl
    · exact congrArg (fun l => (⟨[.endElement name],
        .ok ⟨l, s.pending.drop 1, s.elements⟩⟩ : Script Standing)) hlexer

omit hplace in
/-- Steps of the lexer that differ by no more lead to the same. -/
theorem blur_follow {step step' : Lexer.Step} (h : step.blur place = step'.blur place)
    (s : Standing) :
    (s.follow step).blur place (blur place) = (s.follow step').blur place (blur place) := by
  rcases step with lexer | ⟨token, lexer⟩ | ⟨position, fault⟩ <;>
    rcases step' with lexer' | ⟨token', lexer'⟩ | ⟨position', fault'⟩
  case quiet.quiet =>
    exact congrArg (fun l => (⟨[], .ok { s with lexer := l }⟩ : Script Standing))
      (Lexer.Step.quiet.inj h)
  case token.token =>
    obtain ⟨rfl, hlexer⟩ := Lexer.Step.token.inj h
    exact blur_readToken hlexer token s
  case fault.fault =>
    obtain ⟨hposition, rfl⟩ := Lexer.Step.fault.inj h
    exact congrArg (fun n => (⟨[], .error (.token n fault)⟩ : Script Standing)) hposition
  all_goals cases h

/-- **A byte leads to the same from a blurred reader**, but for what is blurred. -/
theorem blur_readByte (s : Standing) (b : UInt8) :
    ((s.blur place).readByte b).blur place (blur place) =
      (s.readByte b).blur place (blur place) := by
  rw [readByte_eq_follow, readByte_eq_follow]
  exact blur_follow (Lexer.feed_blur hplace s.lexer b) s

/-- Bytes lead to the same from a blurred reader. -/
theorem blur_foldlM (bytes : List UInt8) (s : Standing) :
    (bytes.foldlM readByte (s.blur place)).blur place (blur place) =
      (bytes.foldlM readByte s).blur place (blur place) := by
  induction bytes generalizing s with
  | nil => exact congrArg (fun s => (⟨[], .ok s⟩ : Script Standing)) (blur_self hplace s)
  | cons b bytes ih =>
    rw [List.foldlM_cons, List.foldlM_cons]
    exact Script.blur_bind_congr hplace ih (blur_readByte hplace s b)

/-- The end of the source shows the same of a blurred reader. -/
theorem blur_finish (failure? : Option String) (s : Standing) :
    (⟨[], (s.blur place).finish failure?⟩ : Script Nat).blur place id =
      (⟨[], s.finish failure?⟩ : Script Nat).blur place id := by
  have hlexer : (s.blur place).lexer = s.lexer.blur place := rfl
  have hpending : (s.blur place).pending = s.pending := rfl
  unfold finish
  rw [hlexer, hpending, Lexer.finish?_blur]
  generalize (failure?.map Markup.TokenFault.sourceFailed <|> s.lexer.finish?) = fault?
  rcases fault? with _ | fault
  · rcases s.pending with _ | ⟨element, outer⟩
    · rfl
    · exact congrArg (fun n => (⟨[], .error (.unclosed element.text n)⟩ : Script Nat))
        (hplace.self s.lexer.position)
  · exact congrArg (fun n => (⟨[], .error (.token n fault)⟩ : Script Nat))
      (Lexer.stand_blur hplace s.lexer)

end Blurring

end Standing

/-! ## Reading in one piece -/

/-- What bytes at the beginning of a document give if no refill ends among them. -/
def Script.ofBytes (bytes : List UInt8) : Script Standing :=
  bytes.foldlM Standing.readByte {}

/-- What a document gives in one piece. -/
def Script.whole (bytes : List UInt8) (failure? : Option String) : Script Nat := do
  let s ← (⟨[.startDocument], .ok ()⟩ : Script Unit) >>= fun _ => ofBytes bytes
  ⟨[], s.finish failure?⟩

/-- Bytes in a row are read in a row. -/
theorem Script.ofBytes_append (first second : List UInt8) :
    ofBytes (first ++ second) =
      ofBytes first >>= fun s => second.foldlM Standing.readByte s :=
  List.foldlM_append

/-- How many dashes of a comment in a document type declaration stand directly behind these bytes,
counted up to two. -/
def dashesBehind (bytes : List UInt8) : Nat :=
  match (Script.ofBytes bytes).result with
  | .ok s => s.lexer.dashes
  | .error _ => 0

/-- No refill but the last begins behind a dash and ends behind a single one. -/
def DashesCounted (refills : List (List UInt8)) : Prop :=
  ∀ n < refills.length - 1,
    ¬ (dashesBehind (refills.take n).flatten ≠ 0 ∧ dashesBehind (refills.take (n + 1)).flatten = 1)

instance (refills : List (List UInt8)) : Decidable (DashesCounted refills) :=
  inferInstanceAs (Decidable (∀ n < refills.length - 1, _))

namespace DashesCounted

variable {refills : List (List UInt8)} {second last : List UInt8}

/-- A single refill has no other to remember dashes from. -/
theorem of_length_le_one (h : refills.length ≤ 1) : DashesCounted refills :=
  fun n hn => absurd hn (by omega)

/-- The refills before the last one are counted right too. -/
theorem of_concat (h : DashesCounted (refills ++ [last])) : DashesCounted refills := by
  intro n hn
  have hlength : (refills ++ [last]).length = refills.length + 1 := List.length_append
  have hboth := h n (by omega)
  rwa [List.take_append_of_le_length (by omega), List.take_append_of_le_length (by omega)] at hboth

/-- The last refill but one does not end behind a single dash that is added to others. -/
theorem not_both (h : DashesCounted (refills ++ [second] ++ [last])) :
    ¬ (dashesBehind refills.flatten ≠ 0 ∧ dashesBehind (refills ++ [second]).flatten = 1) := by
  have hlength : (refills ++ [second] ++ [last]).length = refills.length + 2 := by
    rw [List.length_append, List.length_append]
    rfl
  have hboth := h refills.length (by omega)
  have hsecond : (refills ++ [second] ++ [last]).take (refills.length + 1) = refills ++ [second] :=
    List.take_left' (by rw [List.length_append]; rfl)
  rwa [hsecond, List.append_assoc, List.take_left] at hboth

end DashesCounted

/-- Bytes may forget the dashes that are remembered, and remember no others. -/
theorem kept_of_foldlM {bytes : List UInt8} {s s' : Standing}
    (h : (bytes.foldlM Standing.readByte s).result = .ok s') :
    s'.lexer.kept = 0 ∨ s'.lexer.kept = s.lexer.kept := by
  induction bytes generalizing s with
  | nil =>
    cases h
    exact .inr rfl
  | cons b bytes ih =>
    rw [List.foldlM_cons] at h
    rcases hfirst : (s.readByte b).result with fault | next
    · rw [Script.bind_of_error hfirst] at h
      cases h
    · rw [Script.bind_of_ok hfirst] at h
      rcases ih h with hzero | hsame
      · exact .inl hzero
      · rw [hsame]
        exact Lexer.kept_of_next? (Standing.next?_of_readByte hfirst)

/-- What is read of refills is, blurred, what is read in one piece, and dashes are remembered only
if the last refill began behind some. -/
structure ReadsWhole (refills : List (List UInt8)) : Prop where
  blur : (Script.ofArrivals (refills.flatMap Arrival.ofRefill)).blur id (Standing.blur id) =
    (Script.ofBytes refills.flatten).blur id (Standing.blur id)
  kept : ∀ s, (Script.ofArrivals (refills.flatMap Arrival.ofRefill)).result = .ok s →
    s.lexer.kept ≠ 0 → dashesBehind refills.dropLast.flatten ≠ 0

/-- A reading stands behind as many dashes as the reading in one piece. -/
theorem dashesBehind_of_blur {script : Script Standing} {bytes : List UInt8}
    (hblur : script.blur id (Standing.blur id) =
      (Script.ofBytes bytes).blur id (Standing.blur id))
    {s : Standing} (hs : script.result = .ok s) : dashesBehind bytes = s.lexer.dashes := by
  have hresults := (Script.mk.inj hblur).2
  rw [hs] at hresults
  unfold dashesBehind
  rcases hwhole : (Script.ofBytes bytes).result with fault | whole
  · rw [hwhole] at hresults
    cases hresults
  · rw [hwhole] at hresults
    have hsame : s.blur id = whole.blur id := Except.ok.inj hresults
    have hdashes := congrArg (fun s => s.lexer.dashes) hsame
    simp only [Standing.blur, Lexer.dashes_blur] at hdashes
    exact hdashes.symm

/-- Nothing is read of no refills. -/
theorem readsWhole_nil : ReadsWhole [] where
  blur := rfl
  kept s hs hkept := by
    cases hs
    exact absurd rfl hkept

namespace ReadsWhole

variable {refills : List (List UInt8)} {last : List UInt8}

/-- A further refill is read as in one piece, if the end of the refill before it does nothing. -/
theorem concat (hread : ReadsWhole refills) (hlast : last ≠ [])
    (hquiet : ∀ s, (Script.ofArrivals (refills.flatMap Arrival.ofRefill)).result = .ok s →
      s.lexer.kept = 0 ∨ s.lexer.dashes ≠ 1) : ReadsWhole (refills ++ [last]) := by
  obtain ⟨b, bytes, rfl⟩ := List.exists_cons_of_ne_nil hlast
  let before := Script.ofArrivals (refills.flatMap Arrival.ofRefill)
  have harrivals : Script.ofArrivals ((refills ++ [b :: bytes]).flatMap Arrival.ofRefill) =
      before >>= fun s => (b :: bytes).foldlM Standing.readByte s.endRefill := by
    rw [List.flatMap_append, List.flatMap_singleton, Script.ofArrivals_append]
    simp only [Standing.foldlM_arrive_ofRefill]
    rfl
  constructor
  · -- the end of the refill before is quiet, so it may be left out
    have hend : (before >>= fun s => (b :: bytes).foldlM Standing.readByte s.endRefill).blur id
          (Standing.blur id) =
        (before >>= fun s => (b :: bytes).foldlM Standing.readByte s).blur id
          (Standing.blur id) := by
      refine Script.blur_bind_congr_right fun s hs => ?_
      have hsame : s.endRefill.blur id = s.blur id := by
        rw [Standing.blur, Standing.endRefill, Lexer.blur_endRefill id (hquiet s hs)]
        rfl
      rw [← Standing.blur_foldlM Lexer.blurs_id, hsame, Standing.blur_foldlM Lexer.blurs_id]
    rw [harrivals, hend, List.flatten_append, List.flatten_singleton, Script.ofBytes_append]
    exact Script.blur_bind_congr Lexer.blurs_id (Standing.blur_foldlM Lexer.blurs_id _) hread.blur
  · -- what is remembered was remembered at the end of the refill before
    intro s' hs' hkept
    rw [List.dropLast_concat]
    rw [harrivals] at hs'
    rcases hresult : before.result with fault | s
    · rw [Script.bind_of_error hresult] at hs'
      cases hs'
    · rw [Script.bind_of_ok hresult] at hs'
      have hdashes : s.endRefill.lexer.kept = s.lexer.dashes :=
        Lexer.kept_endRefill (hquiet s hresult)
      rcases kept_of_foldlM hs' with hzero | hsame
      · exact absurd hzero hkept
      · rwa [hsame, hdashes, ← dashesBehind_of_blur hread.blur hresult] at hkept

end ReadsWhole

/-- **Refills are read as one piece**, if the dashes are counted right. -/
theorem readsWhole_of_dashesCounted {refills : List (List UInt8)}
    (hne : ∀ refill ∈ refills.tail, refill ≠ []) (hcounted : DashesCounted refills) :
    ReadsWhole refills := by
  induction refills using List.reverseRecOn with
  | nil => exact readsWhole_nil
  | append_singleton refills last ih =>
    rcases List.eq_nil_or_concat refills with rfl | ⟨earlier, second, rfl⟩
    · -- the first refill may be nothing but a mark
      by_cases hlast : last = []
      · rw [hlast]
        exact ⟨rfl, readsWhole_nil.kept⟩
      · refine readsWhole_nil.concat hlast fun s hs => .inl ?_
        cases hs
        rfl
    · rw [List.concat_eq_append] at *
      have hread : ReadsWhole (earlier ++ [second]) := by
        refine ih (fun refill hmem => hne refill ?_) hcounted.of_concat
        rw [List.tail_append_of_ne_nil (by simp)]
        exact List.mem_append_left _ hmem
      refine hread.concat (hne last ?_) fun s hs => ?_
      · rw [List.tail_append_of_ne_nil (by simp)]
        exact List.mem_append_right _ (List.mem_singleton.mpr rfl)
      · by_contra hboth
        obtain ⟨hkept, hone⟩ := not_or.mp hboth
        have hearlier := hread.kept s hs hkept
        rw [List.dropLast_concat] at hearlier
        refine hcounted.not_both ⟨hearlier, ?_⟩
        rw [dashesBehind_of_blur hread.blur hs]
        exact not_not.mp hone

/-! ## Sources with the same bytes -/

namespace Source

variable {source : Source}

/-- **What a source gives depends on its bytes alone**, if the dashes are counted right. -/
theorem script_eq_whole (hcounted : DashesCounted source.document) :
    source.script = Script.whole source.bytes source.failure? := by
  have hne : ∀ refill ∈ source.document.tail, refill ≠ [] := by
    intro refill hmem
    refine source.refills_ne refill ?_
    unfold document at hmem
    rcases hrefills : source.refills with _ | ⟨first, later⟩
    · rw [hrefills] at hmem
      cases hmem
    · rw [hrefills] at hmem
      exact List.mem_cons_of_mem _ hmem
  have hread := (readsWhole_of_dashesCounted hne hcounted).blur
  rw [← Script.blur_id source.script, ← Script.blur_id (Script.whole _ _), script_eq, ← bind_assoc,
    Script.whole]
  refine Script.blur_bind_congr Lexer.blurs_id (Standing.blur_finish Lexer.blurs_id _) ?_
  exact Script.blur_bind_congr_right fun _ _ => hread

/-- Before the other bytes, a mark moves the positions of faults and nothing else. -/
theorem blur_whole_mark (bytes : List UInt8) (failure? : Option String) :
    (Script.whole (byteOrderMark ++ bytes) failure?).blur (fun _ => 0) id =
      (Script.whole bytes failure?).blur (fun _ => 0) id := by
  have hmark : Script.ofBytes byteOrderMark = pure { lexer := { position := 3 } } := rfl
  have hread : (Script.ofBytes (byteOrderMark ++ bytes)).blur (fun _ => 0)
        (Standing.blur fun _ => 0) =
      (Script.ofBytes bytes).blur (fun _ => 0) (Standing.blur fun _ => 0) := by
    rw [Script.ofBytes_append, hmark, Script.pure_bind, ← Standing.blur_foldlM Lexer.blurs_zero]
    exact Standing.blur_foldlM Lexer.blurs_zero bytes {}
  rw [Script.whole, Script.whole]
  refine Script.blur_bind_congr Lexer.blurs_zero (Standing.blur_finish Lexer.blurs_zero _) ?_
  exact Script.blur_bind_congr_right fun _ _ => hread

/-- All bytes in one refill, with or without a mark. -/
theorem bytes_eq_or (source : Source) :
    source.bytes = dropMark source.refills.flatten ∨
      source.bytes = byteOrderMark ++ dropMark source.refills.flatten := by
  by_cases hprefix : byteOrderMark <+: source.refills.flatten
  · obtain ⟨rest, hrest⟩ := hprefix
    have hall := source.mark_append_bytes
    rw [← hrest] at hall ⊢
    rw [dropMark_mark_append]
    rcases source.mark_eq with hmark | hmark
    · rw [hmark, List.nil_append] at hall
      exact .inr hall
    · rw [hmark] at hall
      exact .inl (List.append_cancel_left hall)
  · left
    rw [bytes_of_not_mark hprefix, dropMark_of_not_mark hprefix]

/-- A source of at most one refill remembers no dash. -/
theorem dashesCounted_of_length_le_one (h : source.refills.length ≤ 1) :
    DashesCounted source.document := by
  refine .of_length_le_one ?_
  unfold document
  rcases hrefills : source.refills with _ | ⟨first, later⟩ <;> rw [hrefills] at h <;> exact h

/-- Bytes that fit into one refill have no dashes to remember. -/
theorem dashesCounted_chunked {size : Nat} {bytes : List UInt8} (hle : bytes.length ≤ size)
    (failure? : Option String) : DashesCounted (chunked size bytes failure?).document :=
  dashesCounted_of_length_le_one (length_chunks_le_one hle)

/-- But for positions, a source gives what its bytes give in one piece without a mark. -/
theorem blur_script (hcounted : DashesCounted source.document) :
    source.script.blur (fun _ => 0) id =
      (Script.whole (dropMark source.refills.flatten) source.failure?).blur (fun _ => 0) id := by
  rw [script_eq_whole hcounted]
  rcases source.bytes_eq_or with hsame | hmark
  · rw [hsame]
  · rw [hmark]
    exact blur_whole_mark _ _

section SameBytes

variable {other : Source} (hcounted : DashesCounted source.document)
  (hother : DashesCounted other.document)
  (hbytes : source.refills.flatten = other.refills.flatten)
  (hfailure : source.failure? = other.failure?)
include hcounted hother hbytes hfailure

/-- **Sources of the same bytes give the same, but for positions**, however they are cut. -/
theorem blur_script_congr :
    source.script.blur (fun _ => 0) id = other.script.blur (fun _ => 0) id := by
  rw [blur_script hcounted, blur_script hother, hbytes, hfailure]

/-- Without a mark they give the same, positions included. -/
theorem script_congr (hmark : ¬ byteOrderMark <+: source.refills.flatten) :
    source.script = other.script := by
  have hmark' : ¬ byteOrderMark <+: other.refills.flatten := by rwa [← hbytes]
  rw [script_eq_whole hcounted, script_eq_whole hother, bytes_of_not_mark hmark,
    bytes_of_not_mark hmark', hbytes, hfailure]

end SameBytes

end Source

/-! ## Deliveries in refills -/

/-- The fault without its position. -/
def Markup.Fault.unplaced (fault : Markup.Fault) : Markup.Fault :=
  fault.blur fun _ => 0

/-- Two deliveries that differ at most in where they say that the document is faulty. -/
structure SameDelivery {ε σ : Type} (h : Handler ε σ) (source other : Source) (s : σ) : Prop where
  calls : h.calls source s = h.calls other s
  state : (deliver h source s).state = (deliver h other s).state
  error : (deliver h source s).error? = (deliver h other s).error? ∨
    ∃ fault fault', fault.unplaced = fault'.unplaced ∧
      (deliver h source s).error? = some (h.fault fault) ∧
      (deliver h other s).error? = some (h.fault fault')

/-- Two results of reading a dump that differ at most in where they say that the document is
faulty. -/
inductive SameResult : Except Dump.Error Collector → Except Dump.Error Collector → Prop
  | ok (c : Collector) : SameResult (.ok c) (.ok c)
  | error (error : Dump.Error) : SameResult (.error error) (.error error)
  | document {fault fault' : Markup.Fault} (h : fault.unplaced = fault'.unplaced) :
      SameResult (.error (.collecting (.document fault))) (.error (.collecting (.document fault')))

/-- However it is cut into refills, the text is delivered and read as in one piece. -/
structure DeliversText (source : Source) (text : String) : Prop where
  delivery : ∀ {ε σ : Type} (h : Handler ε σ) (s : σ), SameDelivery h source (.ofText text) s
  reading : ∀ attributes, SameResult (Dump.ofSource source (.ofAttributes attributes)).result
    (Dump.ofText text attributes).result
  /-- Without a mark, positions and messages and notices are the same too. -/
  exactDelivery : ¬ Source.byteOrderMark <+: Utf8.encode text → ∀ {ε σ : Type} (h : Handler ε σ)
    (s : σ), deliver h source s = deliver h (.ofText text) s
  exactReading : ¬ Source.byteOrderMark <+: Utf8.encode text → ∀ attributes,
    Dump.ofSource source (.ofAttributes attributes) = Dump.ofText text attributes

section Telling

variable {ε σ : Type} {h : Handler ε σ} {source other : Source} {s : σ}

/-- Scripts that are the same but for positions give the same events. -/
theorem Script.delivered_of_blur {script script' : Script Nat} {place : Nat → Nat}
    (hblur : script.blur place id = script'.blur place id) :
    script.delivered = script'.delivered := by
  obtain ⟨hevents, hresults⟩ := Script.mk.inj hblur
  rcases hresult : script.result with fault | n <;>
    rcases hresult' : script'.result with fault' | n' <;>
    rw [hresult, hresult'] at hresults
  · rw [Script.delivered_of_error hresult, Script.delivered_of_error hresult', hevents]
  · cases hresults
  · cases hresults
  · rw [Script.delivered_of_ok hresult, Script.delivered_of_ok hresult', hevents]

/-- Scripts that are the same but for positions have the same fault, or none. -/
theorem Script.fault?_of_blur {script script' : Script Nat} {place : Nat → Nat}
    (hblur : script.blur place id = script'.blur place id) :
    script.fault?.map (Markup.Fault.blur place) = script'.fault?.map (Markup.Fault.blur place) := by
  have hresults := (Script.mk.inj hblur).2
  unfold Script.fault?
  generalize script.result = result at hresults ⊢
  generalize script'.result = result' at hresults ⊢
  rcases result with fault | n <;> rcases result' with fault' | n'
  · exact congrArg some (Except.error.inj hresults)
  · cases hresults
  · cases hresults
  · rfl

/-- Sources that give the same but for positions are delivered the same. -/
theorem sameDelivery_of_blur
    (hblur : source.script.blur (fun _ => 0) id = other.script.blur (fun _ => 0) id) :
    SameDelivery h source other s := by
  have hdelivered := Script.delivered_of_blur hblur
  have hfaults := Script.fault?_of_blur hblur
  refine ⟨by rw [Handler.calls_eq, Handler.calls_eq, hdelivered],
    by rw [state_deliver, state_deliver, hdelivered], ?_⟩
  rw [error?_deliver, error?_deliver, hdelivered]
  rcases (replay h other.script.delivered s).error? with _ | error
  · generalize source.script.fault? = fault? at hfaults ⊢
    generalize other.script.fault? = fault'? at hfaults ⊢
    rcases fault? with _ | fault <;> rcases fault'? with _ | fault'
    · exact .inl rfl
    · cases hfaults
    · cases hfaults
    · exact .inr ⟨fault, fault', Option.some.inj hfaults, rfl, rfl⟩
  · exact .inl rfl

/-- A delivery that is the same gives the same dump. -/
theorem sameResult_of_sameDelivery {c : Collector}
    (hsame : SameDelivery Collector.handler source other c) :
    SameResult (Dump.collect source c).result (Dump.collect other c).result := by
  unfold Dump.collect Outcome.toExcept
  rcases hsame.error with herror | ⟨fault, fault', hfaults, herror, herror'⟩
  · dsimp only
    rw [herror, hsame.state]
    rcases (deliver Collector.handler other c).error? with _ | error
    · exact .ok _
    · exact .error _
  · dsimp only
    rw [herror, herror']
    exact .document hfaults

end Telling

/-- The usual configuration is valid, so the dump is collected. -/
theorem ofSource_ofAttributes (source : Source) (attributes : List String) :
    Dump.ofSource source (.ofAttributes attributes) =
      Dump.collect source (.ofAttributes attributes) := by
  rw [Dump.ofSource, Collector.ofConfig, Config.fault?_ofAttributes]
  rfl

/-- **A text is delivered in refills as in one piece**, if no refill but the last begins behind a
dash and ends behind a single one, both of comments in a document type declaration. -/
theorem deliver_refills {text : String} {source : Source}
    (hbytes : source.refills.flatten = Utf8.encode text) (hend : source.failure? = none)
    (hcounted : DashesCounted source.document) : DeliversText source text := by
  have hone : DashesCounted (Source.ofText text).document :=
    Source.dashesCounted_chunked (Nat.le_refl _) none
  have hsame : source.refills.flatten = (Source.ofText text).refills.flatten :=
    hbytes.trans (Source.flatten_chunks_of_length_le (Nat.le_refl _)).symm
  have hblur := Source.blur_script_congr hcounted hone hsame hend
  have hexact : ¬ Source.byteOrderMark <+: Utf8.encode text →
      ∀ {ε σ : Type} (h : Handler ε σ) (s : σ),
        deliver h source s = deliver h (.ofText text) s := by
    intro hmark ε σ h s
    have hscript := Source.script_congr hcounted hone hsame hend (by rwa [hbytes])
    rw [deliver_eq, deliver_eq, hscript]
  refine ⟨fun h s => sameDelivery_of_blur hblur, fun attributes => ?_, hexact,
    fun hmark attributes => ?_⟩
  · rw [ofSource_ofAttributes]
    exact sameResult_of_sameDelivery (sameDelivery_of_blur hblur)
  · rw [ofSource_ofAttributes]
    simp only [Dump.ofText, Dump.collect, hexact hmark]

/-- A document type declaration with a comment, in refills of three bytes. -/
theorem deliver_refills_ofThree :
    let text := "<!DOCTYPE a [<!--x-->]><a b='\u00e9'/>"
    let source := Source.chunked 3 (Utf8.encode text) none
    DashesCounted source.document ∧ DeliversText source text :=
  have hcounted : DashesCounted (Source.chunked 3
      (Utf8.encode "<!DOCTYPE a [<!--x-->]><a b='\u00e9'/>") none).document := by decide +kernel
  ⟨hcounted, deliver_refills (Source.flatten_chunks (by decide) _) rfl hcounted⟩

/-- **Refills may change what is delivered**: the comment that ends before the element in refills of
three bytes ends behind it in one piece. -/
theorem deliver_refills_loneDashes :
    let text := "<!DOCTYPE m [<!---xx->]><a/><!---->]>"
    let source := Source.chunked 3 (Utf8.encode text) none
    source.refills.flatten = Utf8.encode text ∧ source.failure? = none ∧
      Handler.recorder.calls source #[] =
        [.startDocument, .start "a" [], .finish "a", .endDocument] ∧
      Handler.recorder.calls (.ofText text) #[] = [.startDocument, .endDocument] := by
  decide +kernel

end IntervalDump
