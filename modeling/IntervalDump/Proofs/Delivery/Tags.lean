import IntervalDump.Proofs.Delivery.InStep
import IntervalDump.Proofs.Delivery.Reading
import IntervalDump.Proofs.Markup.Step
/-!
# Events and the tags they come from

* **A tag** (`Tag`): the markup between a `<` and a `>`, the name that is written in it, and the
  events it gives. The names of the events spell the name in the tag (`Tag.encode_text`).
* **Every event comes from a tag** (`Script.hasTag_of_events`): behind every event of a reading
  there are bytes `<…>` of their own, and the events before it are those of the bytes before that
  `<`.

While markup is read, the lexer holds all of it (`Script.exists_markup`). The two markups whose
beginning a completed tag depends on are described by `Markup.Lexer.Holds`.
-/

namespace IntervalDump

open Markup (Lexer)

/-! ## Tags -/

/-- The markup between a `<` and the `>` that ends it is a tag in which the name `raw` is written,
and gives these events. -/
inductive Tag : (raw markup : List UInt8) → List Event → Prop
  | start {content : List UInt8} {name : Name} {attributes : List Attribute}
      (h : Markup.decodeTag content = .ok (name, attributes)) :
      Tag (Markup.nameOf content) content [.startElement name attributes]
  | empty {content : List UInt8} {name : Name} {attributes : List Attribute}
      (h : Markup.decodeTag content = .ok (name, attributes)) :
      Tag (Markup.nameOf content) (content ++ ['/'.toUInt8])
        [.startElement name attributes, .endElement name]
  | finish {content : List UInt8} {name : Name}
      (h : Name.decode (Lexer.endName content) = .ok name) :
      Tag (Lexer.endName content) ('/'.toUInt8 :: content) [.endElement name]

/-- **The names of the events spell the name that is written in the tag.** -/
theorem Tag.encode_text {raw markup : List UInt8} {events : List Event} (h : Tag raw markup events)
    {e : Event} (he : e ∈ events) {name : Name} (hname : e.elementName? = some name) :
    Utf8.encode name.text = raw := by
  cases h with
  | start htag =>
    obtain rfl := List.mem_singleton.mp he
    cases hname
    exact Name.encode_text_of_decode (Markup.decodeTag_ok htag).1
  | empty htag =>
    have hdecode := Name.encode_text_of_decode (Markup.decodeTag_ok htag).1
    rcases List.mem_cons.mp he with rfl | he
    · cases hname
      exact hdecode
    · obtain rfl := List.mem_singleton.mp he
      cases hname
      exact hdecode
  | finish hraw =>
    obtain rfl := List.mem_singleton.mp he
    cases hname
    exact Name.encode_text_of_decode hraw

/-! ## What the lexer holds of the markup it is in -/

namespace Markup.Lexer

/-- How the markup in two modes begins. -/
structure Holds (l : Lexer) : Prop where
  opened : l.mode = .opened → l.markup = []
  endTag : l.mode.isEndTag → ∃ content, l.markup = '/'.toUInt8 :: content

variable {l m : Lexer} {b : UInt8}

/-- A byte that is kept is added to the markup. -/
theorem markup_keep (mode : Mode) : (l.keep mode b).markup = l.markup ++ [b] :=
  List.reverse_cons

/-- Where no byte is kept, the markup begins as it has to, outside end tags. -/
theorem holds_of_mode {mode : Mode} (hmode : l.mode = mode) (hseen : l.seen = [])
    (hend : mode.isEndTag = false) : l.Holds where
  opened _ := by rw [markup, hseen, List.reverse_nil]
  endTag htag := by
    rw [hmode, hend] at htag
    cases htag

/-- **How the markup begins is kept by every byte.** -/
theorem Holds.step (hl : l.Holds) (hnext : (l.feed b).next? = some m) : m.Holds := by
  have hfeeds := feeds_feed l b
  rcases hstep : l.feed b with next | ⟨token, next⟩ | ⟨position, fault⟩ <;>
    rw [hstep] at hfeeds hnext <;> cases hnext
  · cases hfeeds with
    | pass mode hmode => exact holds_of_mode rfl rfl (by cases mode <;> trivial)
    | begin => exact holds_of_mode rfl rfl rfl
    | keep mode hmarkup hmode hnew hend =>
      refine ⟨fun hopened => absurd hopened hnew, fun htag => ?_⟩
      · rw [markup_keep]
        rcases hend htag with hearlier | ⟨hopened, hb⟩
        · obtain ⟨content, hcontent⟩ := hl.endTag hearlier
          exact ⟨content ++ [b], by rw [hcontent, List.cons_append]⟩
        · exact ⟨[], by rw [hl.opened hopened, hb, List.nil_append]⟩
  · cases hfeeds with
    | start => exact holds_of_mode rfl rfl rfl
    | empty => exact holds_of_mode rfl rfl rfl
    | finish => exact holds_of_mode rfl rfl rfl

/-- The end of a refill leaves the bytes that were seen. -/
@[simp] theorem seen_endRefill (l : Lexer) : l.endRefill.seen = l.seen := by
  unfold endRefill
  split <;> rfl

/-- The end of a refill leaves the markup. -/
@[simp] theorem markup_endRefill (l : Lexer) : l.endRefill.markup = l.markup := by
  rw [markup, seen_endRefill, markup]

/-- The end of a refill begins and ends no markup. -/
@[simp] theorem isMarkup_endRefill (l : Lexer) : l.endRefill.mode.isMarkup = l.mode.isMarkup := by
  unfold endRefill
  split
  · next hmode => rw [hmode]; rfl
  · rfl

/-- How the markup begins is kept by the end of a refill. -/
theorem Holds.endRefill (hl : l.Holds) : l.endRefill.Holds := by
  unfold Lexer.endRefill
  split
  · exact ⟨nofun, nofun⟩
  · exact hl

end Markup.Lexer

/-! ## What a byte gives -/

namespace Standing

variable {s s' : Standing} {a : Arrival} {b : UInt8}

/-- Noticing a byte ends the refill or does nothing. -/
theorem notice_eq (s : Standing) (a : Arrival) : s.notice a = s ∨ s.notice a = s.endRefill := by
  unfold notice
  split
  · exact .inr rfl
  · exact .inl rfl

/-- Noticing a byte leaves the markup. -/
@[simp] theorem markup_notice (s : Standing) (a : Arrival) :
    (s.notice a).lexer.markup = s.lexer.markup := by
  rcases s.notice_eq a with h | h <;> rw [h]
  exact Lexer.markup_endRefill s.lexer

/-- Noticing a byte begins and ends no markup. -/
@[simp] theorem isMarkup_notice (s : Standing) (a : Arrival) :
    (s.notice a).lexer.mode.isMarkup = s.lexer.mode.isMarkup := by
  rcases s.notice_eq a with h | h <;> rw [h]
  exact Lexer.isMarkup_endRefill s.lexer

/-- How the markup begins is kept when a byte is noticed. -/
theorem holds_notice (hs : s.lexer.Holds) (a : Arrival) : (s.notice a).lexer.Holds := by
  rcases s.notice_eq a with h | h <;> rw [h]
  · exact hs
  · exact hs.endRefill

/-- A completed tag does not concern the lexer any more. -/
theorem lexer_of_readToken {token : Markup.Token} (h : (s.readToken token).result = .ok s') :
    s'.lexer = s.lexer := by
  cases token with
  | start content =>
    rcases htag : Markup.decodeTag content with fault | tag <;>
      simp only [readToken, htag] at h <;> cases h
    rfl
  | empty content =>
    rcases htag : Markup.decodeTag content with fault | tag <;>
      simp only [readToken, htag] at h <;> cases h
    rfl
  | finish raw =>
    rcases hname : Name.decode raw with fault | name <;>
      simp only [readToken, hname] at h <;> cases h
    rfl

/-- Behind a byte, the lexer is where the byte leads it. -/
theorem next?_of_readByte (h : (s.readByte b).result = .ok s') :
    (s.lexer.feed b).next? = some s'.lexer := by
  unfold readByte at h
  rcases hfeed : s.lexer.feed b with lexer | ⟨token, lexer⟩ | ⟨position, fault⟩
  · rw [hfeed] at h
    cases h
    rfl
  · rw [hfeed] at h
    rw [lexer_of_readToken h, Lexer.Step.next?]
  · rw [hfeed] at h
    cases h

/-- A byte that is no `>` gives no event, and the one that ends a tag gives what it says. -/
theorem tag_of_readByte (hs : s.lexer.Holds) (b : UInt8) :
    (s.readByte b).events = [] ∨
      b = '>'.toUInt8 ∧ s.lexer.mode.isMarkup ∧
        ∃ raw, Tag raw s.lexer.markup (s.readByte b).events := by
  have hfeeds := Lexer.feeds_feed s.lexer b
  unfold readByte
  rcases hfeed : s.lexer.feed b with lexer | ⟨token, lexer⟩ | ⟨position, fault⟩
  · exact .inl rfl
  · rw [hfeed] at hfeeds
    dsimp only
    cases hfeeds with
    | start hmarkup hb =>
      rcases htag : Markup.decodeTag s.lexer.markup with fault | tag
      · exact .inl (by simp only [readToken, htag]; rfl)
      · exact .inr ⟨hb, hmarkup, _, by simp only [readToken, htag]; exact .start htag⟩
    | empty content hmarkup hb hcontent =>
      rcases htag : Markup.decodeTag content with fault | tag
      · exact .inl (by simp only [readToken, htag]; rfl)
      · refine .inr ⟨hb, hmarkup, Markup.nameOf content, ?_⟩
        simp only [readToken, htag, hcontent]
        exact .empty htag
    | finish outer hend hb hopened =>
      obtain ⟨content, hcontent⟩ := hs.endTag hend
      have hmarkup : s.lexer.mode.isMarkup := by
        cases hmode : s.lexer.mode <;> rw [hmode] at hend <;> first | rfl | cases hend
      rw [hcontent, List.drop_one, List.tail_cons]
      rcases hname : Name.decode (Lexer.endName content) with fault | name
      · exact .inl (by simp only [readToken, hname]; rfl)
      · exact .inr ⟨hb, hmarkup, _, by simp only [readToken, hname]; exact .finish hname⟩
  · exact .inl rfl

end Standing

/-! ## Where the events come from -/

namespace Script

variable {arrivals : List Arrival} {s : Standing}

/-- The markup begins as it has to wherever a reading stands. -/
theorem holds_of_ofArrivals (h : (ofArrivals arrivals).result = .ok s) : s.lexer.Holds := by
  refine ofArrivals_induction (P := fun _ s => s.lexer.Holds) ?_ ?_ h
  · exact Lexer.holds_of_mode rfl rfl rfl
  · intro _ s a s' _ hs hresult
    exact (Standing.holds_notice hs a).step (Standing.next?_of_readByte hresult)

/-- **The lexer holds the whole markup it is in**, and the markup has given no event so far. -/
theorem exists_markup (h : (ofArrivals arrivals).result = .ok s) (hmarkup : s.lexer.mode.isMarkup) :
    ∃ before read, arrivals = before ++ read ∧
      read.map Arrival.byte = '<'.toUInt8 :: s.lexer.markup ∧
      (ofArrivals before).events = (ofArrivals arrivals).events := by
  revert hmarkup
  refine ofArrivals_induction (P := fun arrivals s => s.lexer.mode.isMarkup →
    ∃ before read, arrivals = before ++ read ∧
      read.map Arrival.byte = '<'.toUInt8 :: s.lexer.markup ∧
      (ofArrivals before).events = (ofArrivals arrivals).events) ?_ ?_ h
  · intro hmarkup
    cases hmarkup
  · -- only the `<` begins markup, and behind it every byte is kept until the markup ends
    intro arrivals s a s' hs ih hresult hmarkup
    have hnext := Standing.next?_of_readByte hresult
    have hfeeds := Lexer.feeds_feed (s.notice a).lexer a.byte
    have hevents : (s.notice a).lexer.feed a.byte = .quiet s'.lexer →
        (ofArrivals (arrivals ++ [a])).events = (ofArrivals arrivals).events := by
      intro hfeed
      rw [ofArrivals_concat_of_ok hs, Standing.arrive, Standing.readByte, hfeed]
      exact List.append_nil _
    generalize s'.lexer = next at hnext hmarkup hevents ⊢
    rcases hfeed : (s.notice a).lexer.feed a.byte
      with lexer | ⟨token, lexer⟩ | ⟨position, fault⟩ <;>
      rw [hfeed] at hfeeds hnext hevents <;> cases hnext
    · cases hfeeds with
      | pass mode hmode =>
        rw [Lexer.pass, hmode] at hmarkup
        cases hmarkup
      | begin htext hb =>
        exact ⟨arrivals, [a], rfl, by rw [List.map_singleton, hb]; rfl, (hevents rfl).symm⟩
      | keep mode hearlier =>
        rw [Standing.isMarkup_notice] at hearlier
        obtain ⟨before, read, rfl, hread, hbefore⟩ := ih hearlier
        refine ⟨before, read ++ [a], List.append_assoc .., ?_, ?_⟩
        · rw [List.map_append, hread, Lexer.markup_keep, Standing.markup_notice]
          rfl
        · rw [hbefore, hevents rfl]
    · -- a completed tag is left behind
      cases hfeeds <;> cases hmarkup

/-- Among the bytes is a tag in which the name `raw` is written and that gives the event `e`, and
before it, besides what the tag gives first, they give the events `earlier`. -/
def HasTag (arrivals : List Arrival) (raw : List UInt8) (earlier : List Event) (e : Event) : Prop :=
  ∃ before tag behind markup first rest, arrivals = before ++ tag ++ behind ∧
    tag.map Arrival.byte = '<'.toUInt8 :: markup ++ ['>'.toUInt8] ∧
    Tag raw markup (first ++ e :: rest) ∧ (ofArrivals before).events ++ first = earlier

/-- A tag that came stays. -/
theorem HasTag.concat {raw : List UInt8} {earlier : List Event} {e : Event}
    (h : HasTag arrivals raw earlier e) (a : Arrival) :
    HasTag (arrivals ++ [a]) raw earlier e := by
  obtain ⟨before, tag, behind, markup, first, rest, hsplit, htag⟩ := h
  exact ⟨before, tag, behind ++ [a], markup, first, rest, by rw [hsplit, List.append_assoc], htag⟩

/-- The byte that completes a tag gives the tag its events. -/
theorem hasTag_of_arrive (hs : (ofArrivals arrivals).result = .ok s) {a : Arrival}
    {first later : List Event} {e : Event} (hnew : (s.arrive a).events = first ++ e :: later) :
    ∃ raw, HasTag (arrivals ++ [a]) raw ((ofArrivals arrivals).events ++ first) e := by
  have hholds := Standing.holds_notice (holds_of_ofArrivals hs) a
  rcases Standing.tag_of_readByte hholds a.byte with hquiet | ⟨hb, hmarkup, raw, htag⟩
  · rw [Standing.arrive, hquiet] at hnew
    simp at hnew
  · rw [Standing.isMarkup_notice] at hmarkup
    obtain ⟨before, read, hsplit, hread, hbefore⟩ := exists_markup hs hmarkup
    refine ⟨raw, before, read ++ [a], [], s.lexer.markup, first, later, ?_, ?_, ?_, ?_⟩
    · rw [hsplit, List.append_nil, List.append_assoc]
    · rw [List.map_append, hread, List.map_singleton, hb]
    · rw [← Standing.markup_notice s a, ← hnew]
      exact htag
    · rw [hbefore]

/-- **Every event comes from a tag of its own.** -/
theorem hasTag_of_events {earlier later : List Event} {e : Event}
    (h : (ofArrivals arrivals).events = earlier ++ e :: later) :
    ∃ raw, HasTag arrivals raw earlier e := by
  induction arrivals using List.reverseRecOn generalizing later with
  | nil => simp [ofArrivals, pure] at h
  | append_singleton arrivals a ih =>
    rcases hs : (ofArrivals arrivals).result with fault | s
    · rw [ofArrivals_append_of_error hs] at h
      obtain ⟨raw, htag⟩ := ih h
      exact ⟨raw, htag.concat a⟩
    · rw [ofArrivals_concat_of_ok hs] at h
      rcases List.append_eq_append_iff.mp h with ⟨first, rfl, hnew⟩ | ⟨old, hold, hnew⟩
      · exact hasTag_of_arrive hs hnew
      · cases old with
        | nil =>
          rw [List.append_nil] at hold
          have hfirst : (s.arrive a).events = [] ++ e :: later := hnew.symm
          obtain ⟨raw, htag⟩ := hasTag_of_arrive hs hfirst
          rw [List.append_nil, hold] at htag
          exact ⟨raw, htag⟩
        | cons e' old =>
          obtain ⟨rfl, -⟩ := List.cons.inj hnew
          obtain ⟨raw, htag⟩ := ih hold
          exact ⟨raw, htag.concat a⟩

end Script

end IntervalDump
