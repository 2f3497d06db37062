import IntervalDump.Proofs.Delivery.Refills
import IntervalDump.Proofs.Markup.PrintedLexing
/-!
# Delivering a printed document

**Theorem** (`deliver_printed`): whatever text a forest of elements is printed to, and however its
bytes come in, a delivery gives the events of the forest to the handler, in the order of the
document, and finds no fault.

`Gives` says of bytes what they give and where they lead, whatever was counted before them. Such
facts are put in a row by `Gives.append`. That of a forest (`gives_printed`) is made, by induction
on how the forest was printed, of what stands between its tags (`gives_skipped`) and of the tags
(`gives_startTag`, `gives_emptyTag`, `gives_endTag`).
-/

namespace IntervalDump

open Markup
open Utf8 (encodeChars)

/-! ## What bytes give -/

/-- Where a reading stands, apart from what it has counted. -/
structure Spot where
  mode : Lexer.Mode
  seen : List UInt8
  opened : List (List UInt8)
  pending : List Name

namespace Spot

/-- Between tags. -/
def between (opened : List (List UInt8)) (pending : List Name) : Spot :=
  ⟨.text, [], opened, pending⟩

/-- A reader at this spot. -/
def standing (spot : Spot) (position elements : Nat) : Standing :=
  ⟨⟨spot.mode, spot.seen, spot.opened, position⟩, spot.pending, elements⟩

end Spot

/-- From one spot, the bytes give these events and lead to another spot, however they come in. -/
def Gives (first : Spot) (bytes : List UInt8) (events : List Event) (last : Spot) : Prop :=
  ∀ arrivals : List Arrival, arrivals.map Arrival.byte = bytes → ∀ position elements,
    ∃ position' elements', arrivals.foldlM Standing.arrive (first.standing position elements) =
      ⟨events, .ok (last.standing position' elements')⟩

variable {opened : List (List UInt8)} {pending : List Name}

/-- What is given by bytes in a row is given in a row. -/
theorem Gives.append {first middle last : Spot} {bytes bytes' : List UInt8}
    {events events' : List Event} (h : Gives first bytes events middle)
    (h' : Gives middle bytes' events' last) :
    Gives first (bytes ++ bytes') (events ++ events') last := by
  intro arrivals hbytes position elements
  obtain ⟨before, behind, rfl, hbefore, hbehind⟩ := List.map_eq_append_iff.mp hbytes
  obtain ⟨position, elements, hfirst⟩ := h before hbefore position elements
  obtain ⟨position, elements, hsecond⟩ := h' behind hbehind position elements
  refine ⟨position, elements, ?_⟩
  rw [List.foldlM_append, hfirst, Script.bind_of_ok rfl, hsecond]

/-- Outside a document type declaration, the end of a refill does nothing. -/
theorem Standing.notice_eq_self {s : Standing} (hmode : s.lexer.mode.isDoctype = false)
    (a : Arrival) : s.notice a = s := by
  rcases s.notice_eq a with h | h <;> rw [h]
  rw [Standing.endRefill, Lexer.endRefill_of_not_doctype hmode]

/-- A byte gives what it gives when no refill begins with it. -/
theorem Gives.single {first last : Spot} {b : UInt8} {events : List Event}
    (hmode : first.mode.isDoctype = false)
    (hbyte : ∀ position elements, ∃ position' elements',
      (first.standing position elements).readByte b =
        ⟨events, .ok (last.standing position' elements')⟩) :
    Gives first [b] events last := by
  intro arrivals hbytes position elements
  obtain ⟨a, rfl, rfl⟩ := List.map_eq_singleton_iff.mp hbytes
  obtain ⟨position', elements', hread⟩ := hbyte position elements
  refine ⟨position', elements', ?_⟩
  have hnotice : (first.standing position elements).notice a = first.standing position elements :=
    Standing.notice_eq_self hmode a
  rw [List.foldlM_cons, Standing.arrive, hnotice, hread, Script.bind_of_ok rfl, List.foldlM_nil]
  exact congrArg (Script.mk · _) (List.append_nil events)

/-- The byte that completes a tag gives the events of the tag. -/
theorem Gives.of_token {first last : Spot} {b : UInt8} {token : Token} {events : List Event}
    (hmode : first.mode.isDoctype = false)
    (hfeed : ∀ position, (⟨first.mode, first.seen, first.opened, position⟩ : Lexer).feed b =
      .token token ⟨last.mode, last.seen, last.opened, position + 1⟩)
    (hread : ∀ lexer elements, ∃ elements',
      Standing.readToken token ⟨lexer, first.pending, elements⟩ =
        ⟨events, .ok ⟨lexer, last.pending, elements'⟩⟩) :
    Gives first [b] events last := by
  refine .single hmode fun position elements => ⟨position + 1, ?_⟩
  rw [Standing.readByte, Spot.standing]
  dsimp only
  rw [hfeed]
  exact hread _ elements

/-- Bytes that are passed over give nothing. -/
theorem Gives.of_passes {mode mode' : Lexer.Mode} {seen seen' bytes : List UInt8}
    (h : Lexer.Passes opened mode seen bytes mode' seen') (hmode : mode.isDoctype = false) :
    Gives ⟨mode, seen, opened, pending⟩ bytes [] ⟨mode', seen', opened, pending⟩ := by
  induction h with
  | nil mode seen =>
    intro arrivals hbytes position elements
    obtain rfl := List.map_eq_nil_iff.mp hbytes
    exact ⟨position, elements, rfl⟩
  | @cons mode next last seen seenNext seenLast b bytes hfeed hnext _ ih =>
    have hbyte : Gives ⟨mode, seen, opened, pending⟩ [b] [] ⟨next, seenNext, opened, pending⟩ := by
      refine .single hmode fun position elements => ⟨position + 1, elements, ?_⟩
      rw [Standing.readByte, Spot.standing, hfeed]
      rfl
    exact hbyte.append (ih hnext)

/-! ## Tags -/

/-- What is skipped gives nothing. -/
theorem gives_skipped {chars : List Char} (h : Skipped chars) :
    Gives (.between opened pending) (encodeChars chars) [] (.between opened pending) :=
  .of_passes (Lexer.passes_skipped h) rfl

section Tags

variable (e : Element) {chars : List Char}

/-- A start tag that was printed gives the start of its element. -/
theorem gives_startTag (h : PrintedAttributes e.attributes chars) :
    Gives (.between opened pending) (encodeChars (startTag e.name chars))
      [.startElement e.name e.attributes]
      (.between (Utf8.encode e.name.text :: opened) (e.name :: pending)) := by
  have hattributes : Lexer.Collects opened (.startTag none) chars :=
    Lexer.collects_attributes h e.attributes_plain
  have hpasses := Lexer.passes_startTag e.name_plain hattributes
  have hne : encodeChars (e.name.text.toList ++ chars) ≠ [] := Utf8.encodeChars_ne_nil
    (List.append_ne_nil_of_left_ne_nil (Name.toList_text_ne_nil e.name_plain) chars)
  have hend : Gives ⟨.startTag none, (encodeChars (e.name.text.toList ++ chars)).reverse, opened,
      pending⟩ ['>'.toUInt8] [.startElement e.name e.attributes]
      (.between (nameOf (encodeChars (e.name.text.toList ++ chars)) :: opened)
        (e.name :: pending)) := by
    refine .of_token rfl (Lexer.feed_startTag hne (Lexer.getLast?_content e.name_plain h))
      fun lexer elements => ⟨elements + 1, ?_⟩
    rw [Standing.readToken, decodeTag_printed e.name_plain h e.attributes_plain e.names_nodup]
    rfl
  rw [startTag, Utf8.encodeChars_append, ← (nameOf_printed e.name_plain h).1]
  exact (Gives.of_passes hpasses rfl).append hend

/-- An empty tag that was printed gives the start and the end. -/
theorem gives_emptyTag (h : PrintedAttributes e.attributes chars) :
    Gives (.between opened pending) (encodeChars (emptyTag e.name chars))
      [.startElement e.name e.attributes, .endElement e.name] (.between opened pending) := by
  have hslash : Lexer.IsPlainInTag ['/'] := ⟨by decide, by decide, by decide⟩
  have hattributes : Lexer.Collects opened (.startTag none) (chars ++ ['/']) :=
    (Lexer.collects_attributes h e.attributes_plain).append (Lexer.collects_startTag hslash)
  have hpasses := Lexer.passes_startTag e.name_plain hattributes
  rw [← List.append_assoc e.name.text.toList, Utf8.encodeChars_append _ ['/']] at hpasses
  have hend : Gives ⟨.startTag none,
      (encodeChars (e.name.text.toList ++ chars) ++ ['/'.toUInt8]).reverse, opened, pending⟩
      ['>'.toUInt8] [.startElement e.name e.attributes, .endElement e.name]
      (.between opened pending) := by
    refine .of_token rfl (Lexer.feed_emptyTag _) fun lexer elements => ⟨elements + 1, ?_⟩
    rw [Standing.readToken, decodeTag_printed e.name_plain h e.attributes_plain e.names_nodup]
    rfl
  have htag : emptyTag e.name chars =
      ['<'] ++ (e.name.text.toList ++ chars ++ ['/']) ++ ['>'] := by
    simp [emptyTag]
  rw [htag, Utf8.encodeChars_append]
  exact (Gives.of_passes hpasses rfl).append hend

/-- An end tag that was printed gives the end. -/
theorem gives_endTag {blanks : List Char} (hblanks : AreBlanks blanks) :
    Gives (.between (Utf8.encode e.name.text :: opened) (e.name :: pending))
      (encodeChars (endTag e.name blanks)) [.endElement e.name] (.between opened pending) := by
  have hplain : Lexer.IsPlainInTag (e.name.text.toList ++ blanks) :=
    (Lexer.isPlainInTag_name e.name_plain).append (Lexer.isPlainInTag_blanks hblanks)
  have hend : Gives ⟨.endTag none,
      (encodeChars (e.name.text.toList ++ blanks)).reverse ++ ['/'.toUInt8],
      Utf8.encode e.name.text :: opened, e.name :: pending⟩ ['>'.toUInt8]
      [.endElement e.name] (.between opened pending) := by
    refine .of_token rfl (Lexer.feed_endTag e.name_plain hblanks opened)
      fun lexer elements => ⟨elements, ?_⟩
    rw [Standing.readToken, Name.decode_encode_text e.name_plain]
    rfl
  rw [endTag, Utf8.encodeChars_append]
  exact (Gives.of_passes (Lexer.passes_endTag hplain) rfl).append hend

end Tags

/-! ## Documents -/

/-- **A printed forest gives its events** and leaves no element open. -/
theorem gives_printed {forest : Forest} {chars : List Char} (h : Printed forest chars)
    (opened : List (List UInt8)) (pending : List Name) :
    Gives (.between opened pending) (encodeChars chars) forest.events
      (.between opened pending) := by
  induction h generalizing opened pending with
  | nil hskipped => exact gives_skipped hskipped
  | @element e inside behind before attributes within blanks rest hbefore hattributes _ hblanks _
      ihInside ihBehind =>
    have hinside := ihInside (Utf8.encode e.name.text :: opened) (e.name :: pending)
    have helement := ((gives_startTag e hattributes).append hinside).append (gives_endTag e hblanks)
    have hall := (gives_skipped hbefore).append (helement.append (ihBehind opened pending))
    simpa [Forest.events, Utf8.encodeChars_append] using hall
  | @empty e behind before attributes rest hbefore hattributes _ ihBehind =>
    have hall := (gives_skipped hbefore).append
      ((gives_emptyTag e hattributes).append (ihBehind opened pending))
    simpa [Forest.events, Utf8.encodeChars_append] using hall

/-- A source gives exactly these events to every handler, and no fault. -/
structure Delivers (source : Source) (events : List Event) : Prop where
  recorded : (deliver Handler.recorder source #[]).state.toList = events
  succeeds : (deliver Handler.recorder source #[]).error? = none
  calls : ∀ {ε σ : Type} (h : Handler ε σ) (s : σ), h.calls source s = h.called events s
  state : ∀ {ε σ : Type} (h : Handler ε σ) (s : σ),
    (deliver h source s).state = (replay h events s).state
  error : ∀ {ε σ : Type} (h : Handler ε σ) (s : σ),
    (deliver h source s).error? = (replay h events s).error?

/-- A complete document is delivered with its end. -/
theorem delivers_of_script {source : Source} {elements : Nat}
    (h : source.script.result = .ok elements) :
    Delivers source (source.script.events ++ [.endDocument]) := by
  have hdelivered := Script.delivered_of_ok h
  have hfault : source.script.fault? = none := by
    rw [Script.fault?, h]
  refine ⟨?_, ?_, fun h s => ?_, fun h s => ?_, fun h s => ?_⟩
  · rw [toList_state_deliver_recorder, hdelivered]
  · rw [error?_deliver_recorder, hfault]
  · rw [Handler.calls_eq, hdelivered]
  · rw [state_deliver, hdelivered]
  · rw [error?_deliver, hdelivered, hfault, Option.map_none, Option.or_none]

/-- The bytes of a document are those of its text, without the mark that may stand before them. -/
theorem Source.exists_bytes_eq {source : Source} {text : String}
    (h : source.refills.flatten = Utf8.encode text) {forest : Forest}
    (hprinted : Printed forest text.toList) :
    ∃ chars, Printed forest chars ∧ source.bytes = encodeChars chars := by
  have hall := source.mark_append_bytes
  rw [h, Utf8.encode_eq] at hall
  rcases source.mark_eq with hmark | hmark
  · rw [hmark, List.nil_append] at hall
    exact ⟨text.toList, hprinted, hall⟩
  · -- the mark is one character of text, before the first tag
    have hchar : Source.byteOrderMark = String.utf8EncodeChar '\ufeff' := by decide
    rw [hmark, hchar] at hall
    rcases htext : text.toList with _ | ⟨c, rest⟩
    · rw [htext] at hall
      exact absurd hall (by simp)
    · rw [htext, Utf8.encodeChars_cons] at hall
      obtain rfl : '\ufeff' = c := Utf8.eq_of_encodeChar_append hall
      rw [htext] at hprinted
      exact ⟨rest, hprinted.of_cons (by decide), List.append_cancel_left hall⟩

/-- **A printed document is delivered as the events it was printed from**, to any handler and in any
refills. -/
theorem deliver_printed {forest : Forest} {text : String} {source : Source}
    (hprinted : Printed forest text.toList) (hbytes : source.refills.flatten = Utf8.encode text)
    (hend : source.failure? = none) :
    Delivers source (.startDocument :: forest.events ++ [.endDocument]) := by
  obtain ⟨chars, hchars, hsource⟩ := Source.exists_bytes_eq hbytes hprinted
  obtain ⟨position, elements, hread⟩ := gives_printed hchars [] [] source.arrivals
    (source.map_byte_arrivals.trans hsource) 0 0
  have hscript : Script.ofArrivals source.arrivals =
      ⟨forest.events, .ok ((Spot.between [] []).standing position elements)⟩ := hread
  have hresult : source.script.result = .ok elements := by
    rw [source.result_script_of_ok (congrArg Script.result hscript), hend]
    rfl
  have hevents : source.script.events = .startDocument :: forest.events := by
    rw [source.events_script, hscript]
  rw [← hevents]
  exact delivers_of_script hresult

/-- A qualified element with one inside it, behind a processing instruction and around a comment. -/
theorem deliver_printed_nested :
    let inner : Element := ⟨.ofLocal "c", [⟨⟨some "m", "d"⟩, "1"⟩], by decide, by decide, by decide⟩
    let outer : Element := ⟨⟨some "m", "a"⟩, [⟨.ofLocal "b", "\"<\u00e9"⟩], by decide, by decide,
      by decide⟩
    let forest : Forest := .cons outer (.cons inner .nil .nil) .nil
    let text := "<?xml?>\n<m:a b='&quot;&lt;\u00e9'><!-- > --><c\tm:d=\"1\"/></m:a\n>"
    let source := Source.chunked 2 (Utf8.encode text) none
    Printed forest text.toList ∧ source.refills.flatten = Utf8.encode text ∧
      source.failure? = none ∧
      Delivers source (.startDocument :: forest.events ++ [.endDocument]) := by
  intro inner outer forest text source
  let before := ['<', '?'] ++ ['x', 'm', 'l'] ++ ['?', '>'] ++ ['\n']
  let comment := ['<', '!', '-', '-'] ++ [' ', '>', ' '] ++ ['-', '-', '>'] ++ []
  let attributes := [' '] ++ attributeText ⟨.ofLocal "b", "\"<\u00e9"⟩ .single ++ []
  let within := comment ++
    (emptyTag inner.name (['\t'] ++ attributeText ⟨⟨some "m", "d"⟩, "1"⟩ .double ++ []) ++ [])
  have hbefore : Skipped before :=
    .instruction (by decide) (by decide) (.text (by decide) (by decide) .nil)
  have hattributes : PrintedAttributes outer.attributes attributes :=
    .cons .single (by decide) (by decide) (.nil (by decide))
  have hinside : Printed (.cons inner .nil .nil) within :=
    .empty (.comment (by decide) .nil)
      (.cons .double (by decide) (by decide) (.nil (by decide))) (.nil .nil)
  have htext : text.toList = before ++
      (startTag outer.name attributes ++ within ++ endTag outer.name ['\n'] ++ []) := by
    decide +kernel
  have hprinted : Printed forest text.toList := by
    rw [htext]
    exact .element hbefore hattributes hinside (by decide) (.nil .nil)
  have hbytes : source.refills.flatten = Utf8.encode text := Source.flatten_chunks (by decide) _
  exact ⟨hprinted, hbytes, rfl, deliver_printed hprinted hbytes rfl⟩

end IntervalDump
