import IntervalDump.Proofs.Delivery.Tags
/-!
# Cutting a source

`Source.cut` is a source that stops behind some of the bytes of another one, in the same refills, by
its own end or by a failure. A text or a file that is cut off is read as the cut of the whole one
(`cut_whole`, `cut_chunked`).

* **The same bytes arrive up to the cut** (`Source.arrivals_cut`). The one exception is a cut inside
  a byte order mark, whose first bytes are then text and give nothing either.
* **Every call for an element is made for a tag that was read up to its `>`**
  (`Source.hasTag_of_elementCalls`), behind just the calls of the bytes before that tag.
-/

namespace IntervalDump

open Markup (Lexer)

/-! ## The calls for elements -/

/-- Where a refill ends does not matter to what is open. -/
theorem InStep.notice {events : List Event} {s : Standing} (hs : InStep events s) (a : Arrival) :
    InStep events (s.notice a) := by
  rcases s.notice_eq a with h | h <;> rw [h]
  · exact hs
  · exact hs.withLexer (Lexer.opened_endRefill s.lexer)

/-- A byte that comes in keeps step. -/
theorem keeps_arrive {events : List Event} {s : Standing} (hs : InStep events s) (a : Arrival) :
    Keeps events (s.arrive a) :=
  keeps_readByte (hs.notice a) a.byte

/-- **All that comes in keeps step.** -/
theorem keeps_ofArrivals (arrivals : List Arrival) : Keeps [] (Script.ofArrivals arrivals) :=
  keeps_foldlM keeps_arrive inStep_nil arrivals

/-- The bytes give no calls but those for elements. -/
theorem Script.filter_isElement_ofArrivals (arrivals : List Arrival) :
    (ofArrivals arrivals).events.filter Event.isElement = (ofArrivals arrivals).events := by
  obtain ⟨pending, hleaves⟩ := (keeps_ofArrivals arrivals).leaves
  exact List.filter_eq_self.mpr hleaves.isElement

namespace Source

/-- The calls for elements, among all those that a handler that never fails gets. -/
def elementCalls (source : Source) : List Event :=
  (deliver Handler.recorder source #[]).state.toList.filter Event.isElement

/-- The calls for elements are what the bytes give. -/
theorem elementCalls_eq (source : Source) :
    source.elementCalls = (Script.ofArrivals source.arrivals).events := by
  have hevents : source.script.events.filter Event.isElement =
      (Script.ofArrivals source.arrivals).events := by
    rw [events_script, List.filter_cons_of_neg Bool.false_ne_true,
      Script.filter_isElement_ofArrivals]
  rw [elementCalls, toList_state_deliver_recorder]
  rcases hresult : source.script.result with fault | elements
  · rw [Script.delivered_of_error hresult, hevents]
  · rw [Script.delivered_of_ok hresult, List.filter_append, hevents]
    exact List.append_nil _

/-- A faulty document has no end. -/
theorem endDocument_not_mem {source : Source} {fault : Markup.Fault}
    (h : source.script.fault? = some fault) :
    .endDocument ∉ (deliver Handler.recorder source #[]).state.toList := by
  rw [toList_state_deliver_recorder, Script.delivered_of_fault? h, events_script]
  obtain ⟨pending, hleaves⟩ := (keeps_ofArrivals source.arrivals).leaves
  intro hmem
  rcases List.mem_cons.mp hmem with heq | hmem
  · cases heq
  · exact hleaves.endDocument_not_mem hmem

/-! ## Cutting a source -/

/-- The first `n` bytes of some refills. -/
def cutRefills : Nat → List (List UInt8) → List (List UInt8)
  | _, [] => []
  | n, refill :: later =>
    if n = 0 then [] else refill.take n :: cutRefills (n - refill.length) later

/-- Cutting leaves no refill empty. -/
theorem ne_nil_of_mem_cutRefills {refills : List (List UInt8)}
    (hne : ∀ refill ∈ refills, refill ≠ []) (n : Nat) :
    ∀ refill ∈ cutRefills n refills, refill ≠ [] := by
  induction refills generalizing n with
  | nil => exact fun refill hmem => absurd hmem List.not_mem_nil
  | cons first later ih =>
    intro refill hmem
    by_cases hn : n = 0
    · rw [cutRefills, if_pos hn] at hmem
      exact absurd hmem List.not_mem_nil
    · rw [cutRefills, if_neg hn] at hmem
      rcases List.mem_cons.mp hmem with rfl | hmem
      · simpa [hn] using hne first List.mem_cons_self
      · exact ih (fun refill hmem => hne refill (List.mem_cons_of_mem _ hmem)) _ refill hmem

/-- The source that stops behind `n` bytes, where it ends or fails. -/
def cut (source : Source) (n : Nat) (failure? : Option String) : Source :=
  ⟨cutRefills n source.refills, ne_nil_of_mem_cutRefills source.refills_ne n, failure?⟩

/-- The first bytes of the refills are the first bytes. -/
theorem flatten_cutRefills (n : Nat) (refills : List (List UInt8)) :
    (cutRefills n refills).flatten = refills.flatten.take n := by
  induction refills generalizing n with
  | nil => rw [cutRefills, List.flatten_nil, List.take_nil]
  | cons first later ih =>
    by_cases hn : n = 0
    · rw [cutRefills, if_pos hn, hn, List.take_zero, List.flatten_nil]
    · rw [cutRefills, if_neg hn, List.flatten_cons, ih, List.flatten_cons, List.take_append]

/-- Behind nothing, no refill comes. -/
theorem cutRefills_zero (refills : List (List UInt8)) : cutRefills 0 refills = [] := by
  cases refills with
  | nil => rw [cutRefills]
  | cons first later => rw [cutRefills, if_pos rfl]

/-- A cut source has the refills up to the cut. -/
theorem refills_cut (source : Source) (n : Nat) (failure? : Option String) :
    (source.cut n failure?).refills = cutRefills n source.refills := rfl

/-- The bytes that the source hands out are the first `n`. -/
theorem flatten_refills_cut (source : Source) (n : Nat) (failure? : Option String) :
    (source.cut n failure?).refills.flatten = source.refills.flatten.take n :=
  flatten_cutRefills n source.refills

/-- A shorter file is read in the refills of the longer one, up to the cut. -/
theorem cutRefills_chunks {size : Nat} (hsize : size ≠ 0) (n : Nat) (bytes : List UInt8) :
    cutRefills n (chunks size bytes) = chunks size (bytes.take n) := by
  -- on the number of bytes, since both sides take a run off the front and go on with the rest
  induction hlength : bytes.length using Nat.strongRecOn generalizing bytes n with
  | _ length ih =>
    by_cases hbytes : bytes = []
    · rw [hbytes, List.take_nil, chunks_nil, cutRefills]
    by_cases hn : n = 0
    · rw [hn, cutRefills_zero, List.take_zero, chunks_nil]
    have hpos : 0 < bytes.length := List.length_pos_iff.mpr hbytes
    have hshorter : (bytes.drop size).length < length := by
      rw [List.length_drop]
      omega
    have htake : bytes.take n ≠ [] := by
      rw [← List.length_pos_iff, List.length_take]
      omega
    rw [chunks_of_ne_nil hsize hbytes, cutRefills, if_neg hn, chunks_of_ne_nil hsize htake,
      ih _ hshorter _ _ rfl, List.take_take, List.take_take, Nat.min_comm, List.drop_take,
      List.length_take]
    congr 2
    rcases Nat.le_total size bytes.length with hle | hle
    · rw [Nat.min_eq_left hle]
    · rw [List.drop_eq_nil_of_le hle, List.take_nil, List.take_nil]

/-- A file that is cut off is the cut of the file, read in refills of the same size. -/
theorem cut_chunked {size : Nat} (hsize : size ≠ 0) (n : Nat) (bytes : List UInt8)
    (before failure? : Option String) :
    (chunked size bytes before).cut n failure? = chunked size (bytes.take n) failure? := by
  simp only [cut, chunked, cutRefills_chunks hsize]

/-- What fits into one refill is read in one. -/
theorem chunks_of_length_le {size : Nat} {bytes : List UInt8} (hle : bytes.length ≤ size)
    (hne : bytes ≠ []) : chunks size bytes = [bytes] := by
  have hsize : size ≠ 0 := by
    have := List.length_pos_iff.mpr hne
    omega
  rw [chunks_of_ne_nil hsize hne, List.take_of_length_le hle, List.drop_eq_nil_of_le hle,
    chunks_nil]

/-- What fits into one refill is read in one at most. -/
theorem length_chunks_le_one {size : Nat} {bytes : List UInt8} (hle : bytes.length ≤ size) :
    (chunks size bytes).length ≤ 1 := by
  by_cases h : bytes = []
  · rw [h, chunks_nil]
    exact Nat.zero_le 1
  · rw [chunks_of_length_le hle h]
    exact Nat.le_refl 1

/-- What fits into one refill is read as it is. -/
theorem flatten_chunks_of_length_le {size : Nat} {bytes : List UInt8} (hle : bytes.length ≤ size) :
    (chunks size bytes).flatten = bytes := by
  by_cases h : bytes = []
  · rw [h, chunks_nil, List.flatten_nil]
  · rw [chunks_of_length_le hle h, List.flatten_singleton]

/-- A text that is cut off is the cut of the text. -/
theorem cut_whole (n : Nat) (bytes : List UInt8) :
    (whole bytes).cut n none = whole (bytes.take n) := by
  by_cases hbytes : bytes = []
  · subst hbytes
    simp only [cut, whole, chunked, chunks_nil, cutRefills, List.take_nil]
  have hlength : bytes.length ≠ 0 := by rwa [ne_eq, List.length_eq_zero_iff]
  rw [whole, cut_chunked hlength, whole]
  by_cases htake : bytes.take n = []
  · simp only [chunked, htake, chunks_nil]
  · have hle : (bytes.take n).length ≤ bytes.length := by
      rw [List.length_take]
      exact Nat.min_le_right _ _
    simp only [chunked, chunks_of_length_le hle htake, chunks_of_length_le (Nat.le_refl _) htake]

/-- The first bytes of a refill come in as they did in the whole refill. -/
theorem ofRefill_take (refill : List UInt8) (n : Nat) :
    Arrival.ofRefill (refill.take n) = (Arrival.ofRefill refill).take n := by
  cases refill with
  | nil => rw [List.take_nil, Arrival.ofRefill, List.take_nil]
  | cons b bytes =>
    cases n with
    | zero => rfl
    | succ n =>
      rw [List.take_succ_cons, Arrival.ofRefill, Arrival.ofRefill, List.take_succ_cons,
        List.map_take]

/-- A refill lets each of its bytes come in. -/
theorem length_ofRefill (refill : List UInt8) :
    (Arrival.ofRefill refill).length = refill.length := by
  rw [← List.length_map (f := Arrival.byte), Arrival.map_byte_ofRefill]

/-- A refill that is cut, and what is cut behind it, come in as the first bytes of both. -/
theorem flatMap_take_cutRefills (refill : List UInt8) (later : List (List UInt8)) (n : Nat)
    (hlater : (cutRefills (n - refill.length) later).flatMap Arrival.ofRefill =
      (later.flatMap Arrival.ofRefill).take (n - refill.length)) :
    (refill.take n :: cutRefills (n - refill.length) later).flatMap Arrival.ofRefill =
      ((refill :: later).flatMap Arrival.ofRefill).take n := by
  rw [List.flatMap_cons, hlater, ofRefill_take, List.flatMap_cons, List.take_append,
    length_ofRefill]

/-- The first bytes of some refills come in as they did in all refills. -/
theorem flatMap_cutRefills (n : Nat) (refills : List (List UInt8)) :
    (cutRefills n refills).flatMap Arrival.ofRefill =
      (refills.flatMap Arrival.ofRefill).take n := by
  induction refills generalizing n with
  | nil => rw [cutRefills, List.flatMap_nil, List.take_nil]
  | cons first later ih =>
    by_cases hn : n = 0
    · rw [cutRefills, if_pos hn, hn, List.take_zero, List.flatMap_nil]
    · rw [cutRefills, if_neg hn]
      exact flatMap_take_cutRefills first later n (ih _)

/-- The byte order mark, if the first refill holds all of it. -/
def mark (source : Source) : List UInt8 :=
  if byteOrderMark.isPrefixOf (source.refills.headD []) then byteOrderMark else []

/-- There is a mark or there is none. -/
theorem mark_eq (source : Source) : source.mark = [] ∨ source.mark = byteOrderMark := by
  unfold mark
  split
  · exact .inr rfl
  · exact .inl rfl

/-- The mark and what is left without it are all bytes. -/
theorem mark_append_dropMark (bytes : List UInt8) :
    (if byteOrderMark.isPrefixOf bytes then byteOrderMark else []) ++ dropMark bytes = bytes := by
  unfold dropMark
  by_cases h : byteOrderMark.isPrefixOf bytes
  · rw [if_pos h, if_pos h]
    obtain ⟨rest, rfl⟩ := List.isPrefixOf_iff_prefix.mp h
    rw [List.drop_left]
  · rw [if_neg h, if_neg h, List.nil_append]

/-- All bytes are those of the document, but for the mark. -/
theorem mark_append_bytes (source : Source) :
    source.mark ++ source.bytes = source.refills.flatten := by
  unfold mark bytes document
  rcases source.refills with _ | ⟨first, later⟩
  · rfl
  · rw [List.headD_cons, List.flatten_cons, ← List.append_assoc, mark_append_dropMark,
      List.flatten_cons]

/-- A beginning of the byte order mark is text like any other. -/
theorem ofArrivals_mark_take {n : Nat} (hn : n < byteOrderMark.length) :
    (Script.ofArrivals (Arrival.ofRefill (byteOrderMark.take n))).events = [] ∧
      (Script.ofArrivals (Arrival.ofRefill (byteOrderMark.take n))).fault? = none := by
  have hcases : n = 0 ∨ n = 1 ∨ n = 2 := by
    have hlength : byteOrderMark.length = 3 := rfl
    omega
  rcases hcases with rfl | rfl | rfl
  · exact ⟨rfl, rfl⟩
  · exact ⟨rfl, rfl⟩
  · exact ⟨rfl, rfl⟩

/-- The mark is looked for in the first refill. -/
theorem arrivals_of_cons {source : Source} {first : List UInt8} {later : List (List UInt8)}
    (h : source.refills = first :: later) :
    source.arrivals = (dropMark first :: later).flatMap Arrival.ofRefill := by
  rw [arrivals, document, h]

/-- Without refills, no byte comes in. -/
theorem arrivals_of_nil {source : Source} (h : source.refills = []) : source.arrivals = [] := by
  rw [arrivals, document, h, List.flatMap_nil]

/-- A first refill that begins with the mark has it. -/
theorem mark_eq_of_mark {source : Source} {first : List UInt8} {later : List (List UInt8)}
    (h : source.refills = first :: later) (hmark : byteOrderMark <+: first) :
    source.mark = byteOrderMark := by
  rw [mark, h, List.headD_cons, if_pos (List.isPrefixOf_iff_prefix.mpr hmark)]

/-- A first refill that does not begin with the mark has none. -/
theorem mark_eq_nil_of_not {source : Source} {first : List UInt8} {later : List (List UInt8)}
    (h : source.refills = first :: later) (hmark : ¬ byteOrderMark <+: first) :
    source.mark = [] := by
  rw [mark, h, List.headD_cons, if_neg (by rwa [List.isPrefixOf_iff_prefix])]

/-- Without a mark, all bytes are those of the document. -/
theorem bytes_of_not_mark {source : Source}
    (h : ¬ byteOrderMark <+: source.refills.flatten) : source.bytes = source.refills.flatten := by
  have hmark : source.mark = [] := by
    rcases hrefills : source.refills with _ | ⟨first, later⟩
    · rw [mark, hrefills]
      rfl
    · refine mark_eq_nil_of_not hrefills fun hprefix => h ?_
      rw [hrefills, List.flatten_cons]
      exact hprefix.trans (List.prefix_append first _)
  rw [← mark_append_bytes, hmark, List.nil_append]

/-- Behind the mark stands what is left without it. -/
theorem dropMark_mark_append (rest : List UInt8) : dropMark (byteOrderMark ++ rest) = rest := by
  rw [dropMark, if_pos (List.isPrefixOf_iff_prefix.mpr (List.prefix_append _ _)), List.drop_left]

/-- Behind a mark that was not cut, the cut is as far as it was from the beginning. -/
theorem dropMark_take_of_mark {first : List UInt8} {n : Nat} (hn : byteOrderMark.length ≤ n) :
    dropMark ((byteOrderMark ++ first).take n) = first.take (n - byteOrderMark.length) := by
  have hprefix : byteOrderMark.isPrefixOf ((byteOrderMark ++ first).take n) := by
    rw [List.isPrefixOf_iff_prefix, List.take_append, List.take_of_length_le hn]
    exact List.prefix_append _ _
  rw [dropMark, if_pos hprefix, List.take_append, List.take_of_length_le hn, List.drop_left]

/-- Where there is no mark, nothing is dropped. -/
theorem dropMark_of_not_mark {bytes : List UInt8} (h : ¬ byteOrderMark <+: bytes) :
    dropMark bytes = bytes := by
  rw [dropMark, if_neg (by rwa [List.isPrefixOf_iff_prefix])]

/-- A cut behind the first byte leaves a part of the first refill. -/
theorem arrivals_cut_of_ne_zero {source : Source} {first : List UInt8} {later : List (List UInt8)}
    (h : source.refills = first :: later) {n : Nat} (hn : n ≠ 0) (failure? : Option String) :
    (source.cut n failure?).arrivals =
      (dropMark (first.take n) :: cutRefills (n - first.length) later).flatMap
        Arrival.ofRefill := by
  have hrefills : (source.cut n failure?).refills =
      first.take n :: cutRefills (n - first.length) later := by
    rw [refills_cut, h, cutRefills, if_neg hn]
  exact arrivals_of_cons hrefills

/-- Where there is no mark, or the cut is behind it, the same bytes arrive up to the cut. -/
theorem arrivals_cut {source : Source} {n : Nat} (hn : source.mark = [] ∨ byteOrderMark.length ≤ n)
    (failure? : Option String) :
    (source.cut n failure?).arrivals = source.arrivals.take (n - source.mark.length) := by
  rcases hrefills : source.refills with _ | ⟨first, later⟩
  · have hcut : (source.cut n failure?).refills = [] := by rw [refills_cut, hrefills, cutRefills]
    rw [arrivals_of_nil hcut, arrivals_of_nil hrefills, List.take_nil]
  by_cases hzero : n = 0
  · have hcut : (source.cut n failure?).refills = [] := by rw [refills_cut, hzero, cutRefills_zero]
    rw [arrivals_of_nil hcut, hzero, Nat.zero_sub, List.take_zero]
  rw [arrivals_cut_of_ne_zero hrefills hzero, arrivals_of_cons hrefills]
  -- the mark is dropped on both sides, so the cut is counted without it
  by_cases hmark : byteOrderMark <+: first
  · have hall : source.mark = byteOrderMark := mark_eq_of_mark hrefills hmark
    obtain ⟨rest, rfl⟩ := hmark
    have hlong : byteOrderMark.length ≤ n := by
      rcases hn with hnone | hlong
      · rw [hall] at hnone
        cases hnone
      · exact hlong
    rw [dropMark_take_of_mark hlong, dropMark_mark_append, hall, List.length_append,
      ← Nat.sub_sub]
    exact flatMap_take_cutRefills rest later _ (flatMap_cutRefills _ later)
  · have hpart : ¬ byteOrderMark <+: first.take n := fun h =>
      hmark (h.trans (List.take_prefix n first))
    rw [dropMark_of_not_mark hpart, dropMark_of_not_mark hmark, mark_eq_nil_of_not hrefills hmark,
      List.length_nil, Nat.sub_zero]
    exact flatMap_take_cutRefills first later n (flatMap_cutRefills _ later)

/-- A cut inside the mark lets the bytes of the mark before it arrive. -/
theorem arrivals_cut_inside_mark {source : Source} {n : Nat} (hmark : source.mark ≠ [])
    (hn : n < byteOrderMark.length) (failure? : Option String) :
    (source.cut n failure?).arrivals = Arrival.ofRefill (byteOrderMark.take n) := by
  rcases hrefills : source.refills with _ | ⟨first, later⟩
  · exact absurd (by rw [mark, hrefills]; rfl) hmark
  have hprefix : byteOrderMark <+: first := by
    by_contra hnot
    exact hmark (mark_eq_nil_of_not hrefills hnot)
  obtain ⟨rest, rfl⟩ := hprefix
  by_cases hzero : n = 0
  · have hcut : (source.cut n failure?).refills = [] := by rw [refills_cut, hzero, cutRefills_zero]
    rw [arrivals_of_nil hcut, hzero]
    rfl
  have hpart : ¬ byteOrderMark <+: byteOrderMark.take n := fun h =>
    absurd h.length_le (by rw [List.length_take]; omega)
  have hbehind : n - (byteOrderMark ++ rest).length = 0 := by
    rw [List.length_append]
    omega
  rw [arrivals_cut_of_ne_zero hrefills hzero, hbehind, cutRefills_zero,
    List.take_append_of_le_length (Nat.le_of_lt hn), dropMark_of_not_mark hpart, List.flatMap_cons,
    List.flatMap_nil, List.append_nil]

/-- **What a cut source gives is what the bytes before the cut give.** What comes of a part of the
mark is nothing, as if no byte had arrived. -/
theorem ofArrivals_cut (source : Source) (n : Nat) (failure? : Option String) :
    let before := Script.ofArrivals (source.arrivals.take (n - source.mark.length))
    (Script.ofArrivals (source.cut n failure?).arrivals).events = before.events ∧
      (Script.ofArrivals (source.cut n failure?).arrivals).fault? = before.fault? := by
  intro before
  by_cases hn : source.mark = [] ∨ byteOrderMark.length ≤ n
  · rw [arrivals_cut hn]
    exact ⟨rfl, rfl⟩
  · obtain ⟨hmark, hlong⟩ := not_or.mp hn
    have hlength : source.mark.length = byteOrderMark.length := by
      unfold mark at hmark ⊢
      split
      · rfl
      · next hnot => rw [if_neg hnot] at hmark; exact absurd rfl hmark
    have hbefore : before = Script.ofArrivals [] := by
      show Script.ofArrivals (source.arrivals.take (n - source.mark.length)) = _
      rw [hlength, Nat.sub_eq_zero_of_le (by omega), List.take_zero]
    rw [arrivals_cut_inside_mark hmark (by omega), hbefore]
    exact ofArrivals_mark_take (by omega)

/-- The calls for elements up to a cut are those that the bytes up to there give. -/
theorem elementCalls_cut (source : Source) (n : Nat) (failure? : Option String) :
    (source.cut n failure?).elementCalls =
      (Script.ofArrivals (source.arrivals.take (n - source.mark.length))).events := by
  rw [elementCalls_eq, (ofArrivals_cut source n failure?).1]

/-! ## Calls and tags -/

/-- The source hands out, together and up to its `>`, the tag that the call `e` is made for, and
`raw` is the name written in it. Behind the bytes before that tag, and with what the tag itself
gives first, just the calls `earlier` were made. -/
def HasTag (source : Source) (raw : List UInt8) (earlier : List Event) (e : Event) : Prop :=
  ∃ before markup behind first rest,
    source.refills.flatten = before ++ '<'.toUInt8 :: (markup ++ '>'.toUInt8 :: behind) ∧
    Tag raw markup (first ++ e :: rest) ∧
    (source.cut before.length none).elementCalls ++ first = earlier

/-- The name of a call is the name that is written in its tag. -/
theorem HasTag.encode_text {source : Source} {raw : List UInt8} {earlier : List Event} {e : Event}
    (h : source.HasTag raw earlier e) {name : Name} (hname : e.elementName? = some name) :
    Utf8.encode name.text = raw := by
  obtain ⟨before, markup, behind, first, rest, -, htag, -⟩ := h
  exact htag.encode_text (List.mem_append_right first List.mem_cons_self) hname

/-- **Every call is made for a tag that was read up to its `>`.** -/
theorem hasTag_of_elementCalls {source : Source} {earlier later : List Event} {e : Event}
    (h : source.elementCalls = earlier ++ e :: later) : ∃ raw, source.HasTag raw earlier e := by
  rw [elementCalls_eq] at h
  obtain ⟨raw, before, tag, behind, markup, first, rest, hsplit, htag, hgives, hearlier⟩ :=
    Script.hasTag_of_events h
  refine ⟨raw, source.mark ++ before.map Arrival.byte, markup, behind.map Arrival.byte, first, rest,
    ?_, hgives, ?_⟩
  · rw [← mark_append_bytes, ← map_byte_arrivals, hsplit, List.map_append, List.map_append, htag]
    simp only [List.append_assoc, List.cons_append, List.nil_append]
  · have hlength : (source.mark ++ before.map Arrival.byte).length - source.mark.length =
        before.length := by
      rw [List.length_append, List.length_map, Nat.add_sub_cancel_left]
    rw [elementCalls_cut, hlength, hsplit, List.append_assoc, List.take_left, hearlier]

end Source

end IntervalDump
