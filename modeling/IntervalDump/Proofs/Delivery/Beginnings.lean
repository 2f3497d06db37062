import IntervalDump.Proofs.Delivery.Refills
/-!
# Documents that are cut off

A source may stop behind the first bytes of a document, by its own end or by a failure.

**Theorem** (`deliver_cut`): however its bytes come, every call is that of a tag that was read up to
its `>`, and a source that fails is never taken for one that ends. If they come in the refills of
the whole document, up to the cut, then the calls are the first of those for the whole document. In
other refills it is so if the dashes of comments in document type declarations are counted right
(`DashesCounted`).

Without that condition it is not so (`deliver_cut_loneDashes`): where a `>` is taken for the end of
a comment, an element is delivered that the whole document has inside that comment.

In the same refills, a reading of the first bytes is the beginning of the reading
(`Source.deliversBeginning_cut`). For other refills, both documents are compared with themselves in
one piece (`DeliversBeginning.of_blur`).
-/

namespace IntervalDump

/-! ## Two deliveries -/

/-- The source with another end. -/
def Source.ending (source : Source) (failure? : Option String) : Source :=
  { source with failure? }

/-- A source gives no more than it handed out. -/
structure DeliversNoMore (source : Source) : Prop where
  /-- Every call for an element is made for a tag whose `>` was handed out. -/
  completed : ∀ earlier e later, source.elementCalls = earlier ++ e :: later →
    ∃ raw, source.HasTag raw earlier e
  /-- A source that fails has no end of the document. -/
  noEnd : ∀ reason, source.failure? = some reason →
    .endDocument ∉ (deliver Handler.recorder source #[]).state.toList
  /-- A source that fails leads to an error: to a fault in the bytes before, which is there in
  whatever way the source ends, or else to the failure itself. -/
  error : ∀ reason, source.failure? = some reason →
    (∃ fault, ∀ failure?,
      (deliver Handler.recorder (source.ending failure?) #[]).error? = some fault) ∨
    ∃ position, (deliver Handler.recorder source #[]).error? =
      some (.token position (.sourceFailed reason))

/-- A part of a source gives the first of what the source gives. Of the position of a fault, `place`
says what both have in common. -/
structure DeliversBeginning (place : Nat → Nat) (source part : Source) : Prop where
  elementCalls : part.elementCalls <+: source.elementCalls
  /-- A fault in the bytes of the part is that of the source. -/
  fault : ∀ fault,
    (∀ failure?, (deliver Handler.recorder (part.ending failure?) #[]).error? = some fault) →
      ∃ fault', fault'.blur place = fault.blur place ∧
        (deliver Handler.recorder source #[]).error? = some fault'

/-- What is delivered of the document `d` if only its first `n` bytes come. -/
structure DeliversCut (d : List UInt8) (n : Nat) : Prop where
  /-- In any refills, nothing is given that did not come. -/
  noMore : ∀ part : Source, part.refills.flatten = d.take n → DeliversNoMore part
  /-- In the refills of the whole document, up to the cut, the beginning is given. -/
  sameRefills : ∀ source : Source, source.refills.flatten = d → ∀ failure?,
    (source.cut n failure?).refills.flatten = d.take n ∧
      DeliversBeginning id source (source.cut n failure?)
  /-- A text that is cut off. -/
  text : DeliversBeginning id (.whole d) (.whole (d.take n))
  /-- A file that is cut off, read in refills of one size. -/
  file : ∀ size ≠ 0, ∀ failure?,
    DeliversBeginning id (.chunked size d none) (.chunked size (d.take n) failure?)
  /-- In any refills in which the dashes are counted right, the beginning is given, but for the
  positions of faults. -/
  refills : ∀ source part : Source, source.refills.flatten = d → part.refills.flatten = d.take n →
    DashesCounted source.document → DashesCounted part.document →
      DeliversBeginning (fun _ => 0) source part
  /-- Without a mark, the positions are the same too. -/
  exactRefills : ¬ Source.byteOrderMark <+: d → ∀ source part : Source,
    source.refills.flatten = d → part.refills.flatten = d.take n →
    DashesCounted source.document → DashesCounted part.document → DeliversBeginning id source part

namespace Source

/-! ## Faults in the bytes of a source -/

section Faults

variable {source : Source} {fault : Markup.Fault}

/-- A fault in the bytes comes before everything that the end of the source could show. -/
theorem fault?_script (h : (Script.ofArrivals source.arrivals).fault? = some fault) :
    source.script.fault? = some fault := by
  unfold Script.fault? at h ⊢
  rcases hresult : (Script.ofArrivals source.arrivals).result with earlier | s <;>
    rw [hresult] at h <;> cases h
  rw [result_script_of_error source hresult]

/-- A source that fails behind bytes without a fault is faulty for that reason. -/
theorem fault?_script_of_failure {reason : String} (hfailure : source.failure? = some reason)
    (h : (Script.ofArrivals source.arrivals).fault? = none) :
    ∃ position, source.script.fault? = some (.token position (.sourceFailed reason)) := by
  unfold Script.fault? at h
  rcases hresult : (Script.ofArrivals source.arrivals).result with earlier | s <;>
    rw [hresult] at h <;> cases h
  refine ⟨s.lexer.stand, ?_⟩
  rw [Script.fault?, result_script_of_ok source hresult, hfailure]
  rfl

/-- Bytes without a fault may end in many ways, and the faults are then as many. -/
theorem exists_fault?_of_ending {place : Nat → Nat}
    (h : ∀ failure?, ∃ fault', fault'.blur place = fault.blur place ∧
      (source.ending failure?).script.fault? = some fault') :
    ∃ fault', fault'.blur place = fault.blur place ∧
      (Script.ofArrivals source.arrivals).fault? = some fault' := by
  -- without a fault in the bytes, a source that fails names its own reason, and there is more than
  -- one reason
  rcases hbytes : (Script.ofArrivals source.arrivals).fault? with _ | found
  · have hreason : ∀ reason, ∃ position,
        Markup.Fault.token position (.sourceFailed reason) = fault.blur place := by
      intro reason
      obtain ⟨position, hfails⟩ := (source.ending (some reason)).fault?_script_of_failure rfl hbytes
      obtain ⟨fault', hblur, hfault'⟩ := h (some reason)
      rw [hfails] at hfault'
      cases hfault'
      exact ⟨place position, hblur⟩
    obtain ⟨position, hempty⟩ := hreason ""
    obtain ⟨position', hblank⟩ := hreason " "
    rw [← hempty] at hblank
    have hreasons := Markup.TokenFault.sourceFailed.inj (Markup.Fault.token.inj hblank).2
    exact absurd hreasons (by decide)
  · obtain ⟨fault', hblur, hfault'⟩ := h source.failure?
    have hfound : source.script.fault? = some found := fault?_script hbytes
    cases hfound.symm.trans hfault'
    exact ⟨found, hblur, rfl⟩

/-- A fault in the bytes is one that is there in whatever way the source ends. -/
theorem fault?_ending_iff :
    (∀ failure?, (source.ending failure?).script.fault? = some fault) ↔
      (Script.ofArrivals source.arrivals).fault? = some fault := by
  refine ⟨fun h => ?_, fun h failure? => fault?_script h⟩
  have hall : ∀ failure?, ∃ fault', fault'.blur id = fault.blur id ∧
      (source.ending failure?).script.fault? = some fault' :=
    fun failure? => ⟨fault, rfl, h failure?⟩
  obtain ⟨fault', hblur, hfault'⟩ := exists_fault?_of_ending hall
  rw [Markup.Fault.blur_id, Markup.Fault.blur_id] at hblur
  rwa [← hblur]

end Faults

end Source

/-! ## What came -/

/-- **However its bytes come, a source gives no more than it handed out.** -/
theorem deliversNoMore (source : Source) : DeliversNoMore source := by
  have hcases : (∃ fault, ∀ failure?, (source.ending failure?).script.fault? = some fault) ∨
      ∀ reason, source.failure? = some reason →
        ∃ position, source.script.fault? = some (.token position (.sourceFailed reason)) := by
    rcases hbytes : (Script.ofArrivals source.arrivals).fault? with _ | fault
    · exact .inr fun reason hfailure => source.fault?_script_of_failure hfailure hbytes
    · exact .inl ⟨fault, source.fault?_ending_iff.mpr hbytes⟩
  refine ⟨fun _ _ _ h => Source.hasTag_of_elementCalls h, fun reason hfailure => ?_,
    fun reason hfailure => ?_⟩
  · rcases hcases with ⟨fault, hfault⟩ | hfails
    · exact source.endDocument_not_mem (hfault source.failure?)
    · obtain ⟨position, hfault⟩ := hfails reason hfailure
      exact source.endDocument_not_mem hfault
  · simp only [error?_deliver_recorder]
    exact hcases.imp_right fun hfails => hfails reason hfailure

/-! ## The beginning of a document -/

/-- **In the same refills, a cut source gives the beginning.** -/
theorem Source.deliversBeginning_cut (source : Source) (n : Nat) (failure? : Option String) :
    DeliversBeginning id source (source.cut n failure?) where
  elementCalls := by
    rw [elementCalls_cut, elementCalls_eq]
    exact Script.ofArrivals_prefix (List.take_prefix _ _)
  fault fault h := by
    simp only [error?_deliver_recorder, fault?_ending_iff] at h ⊢
    rw [(ofArrivals_cut source n failure?).2] at h
    exact ⟨fault, rfl, fault?_script (Script.fault?_of_prefix (List.take_prefix _ _) h)⟩

/-- The calls for elements do not depend on how the source ends. -/
theorem Source.elementCalls_ending (source : Source) (failure? : Option String) :
    (source.ending failure?).elementCalls = source.elementCalls := by
  rw [elementCalls_eq, elementCalls_eq]
  rfl

/-- Scripts that are the same but for positions have the same fault, but for its position. -/
theorem Script.exists_fault?_of_blur {script script' : Script Nat} {place : Nat → Nat}
    (hblur : script.blur place id = script'.blur place id) {fault : Markup.Fault}
    (hfault : script.fault? = some fault) :
    ∃ fault', fault'.blur place = fault.blur place ∧ script'.fault? = some fault' := by
  have hfaults := Script.fault?_of_blur hblur
  rw [hfault, Option.map_some] at hfaults
  obtain ⟨fault', hfault', hplaces⟩ := Option.map_eq_some_iff.mp hfaults.symm
  exact ⟨fault', hplaces, hfault'⟩

/-- Sources may be replaced by others that give the same, but for what `place` loses. -/
theorem DeliversBeginning.of_blur {place : Nat → Nat} {source part other otherPart : Source}
    (h : DeliversBeginning id other otherPart)
    (hsource : source.script.blur place id = other.script.blur place id)
    (hpart : ∀ failure?, (part.ending failure?).script.blur place id =
      (otherPart.ending failure?).script.blur place id) :
    DeliversBeginning place source part := by
  have hcalls {first second : Source}
      (hblur : first.script.blur place id = second.script.blur place id) :
      first.elementCalls = second.elementCalls := by
    rw [Source.elementCalls, Source.elementCalls, toList_state_deliver_recorder,
      toList_state_deliver_recorder, Script.delivered_of_blur hblur]
  constructor
  · rw [hcalls hsource, ← part.elementCalls_ending none, hcalls (hpart none),
      otherPart.elementCalls_ending]
    exact h.elementCalls
  · intro fault hfault
    simp only [error?_deliver_recorder] at hfault ⊢
    -- the fault is in the bytes of the part, so it is in those of the other part
    obtain ⟨found, hfound, hbytes⟩ := Source.exists_fault?_of_ending fun failure? =>
      Script.exists_fault?_of_blur (hpart failure?) (hfault failure?)
    obtain ⟨same, hsame, hother⟩ := h.fault found fun failure? => by
      rw [error?_deliver_recorder, Source.fault?_ending_iff.mpr hbytes]
    rw [Markup.Fault.blur_id, Markup.Fault.blur_id] at hsame
    rw [error?_deliver_recorder, hsame] at hother
    obtain ⟨fault', hplaces, hfault'⟩ := Script.exists_fault?_of_blur hsource.symm hother
    exact ⟨fault', hplaces.trans hfound, hfault'⟩

/-- **In refills in which the dashes are counted right, the beginning is given**, as far as sources
of the same bytes agree. -/
theorem deliversBeginning_of_counted {d : List UInt8} {place : Nat → Nat}
    (hagree : ∀ first second : Source, first.refills.flatten <+: d →
      DashesCounted first.document → DashesCounted second.document →
      first.refills.flatten = second.refills.flatten → first.failure? = second.failure? →
        first.script.blur place id = second.script.blur place id)
    {n : Nat} {source part : Source} (hsource : source.refills.flatten = d)
    (hpart : part.refills.flatten = d.take n) (hcounted : DashesCounted source.document)
    (hcountedPart : DashesCounted part.document) : DeliversBeginning place source part := by
  -- both are compared with their bytes in one refill, whose size must not be zero
  have hlarge {bytes : List UInt8} (hbytes : bytes <+: d) : bytes.length ≤ d.length + 1 :=
    Nat.le_succ_of_le hbytes.length_le
  have hcut :=
    (Source.chunked (d.length + 1) d source.failure?).deliversBeginning_cut n part.failure?
  rw [Source.cut_chunked (Nat.succ_ne_zero _)] at hcut
  refine hcut.of_blur ?_ fun failure? => ?_
  · have hle : d.length ≤ d.length + 1 := hlarge List.prefix_rfl
    exact hagree source _ (hsource ▸ List.prefix_rfl) hcounted
      (Source.dashesCounted_chunked hle _)
      (hsource.trans (Source.flatten_chunks_of_length_le hle).symm) rfl
  · have htake : d.take n <+: d := List.take_prefix n d
    have hle : (d.take n).length ≤ d.length + 1 := hlarge htake
    exact hagree (part.ending failure?) _ (hpart ▸ htake) hcountedPart
      (Source.dashesCounted_chunked hle _)
      (hpart.trans (Source.flatten_chunks_of_length_le hle).symm) rfl

/-- **What is delivered of a document that was cut off is the beginning of it**, in the refills of
the whole document and in any others in which the dashes are counted right; and however its bytes
come, nothing is delivered that is not in them. -/
theorem deliver_cut (d : List UInt8) (n : Nat) : DeliversCut d n where
  noMore part _ := deliversNoMore part
  sameRefills source hbytes failure? :=
    ⟨(source.flatten_refills_cut n failure?).trans (congrArg (List.take n) hbytes),
      source.deliversBeginning_cut n failure?⟩
  text := Source.cut_whole n d ▸ (Source.whole d).deliversBeginning_cut n none
  file size hsize failure? :=
    Source.cut_chunked hsize n d none failure? ▸
      (Source.chunked size d none).deliversBeginning_cut n failure?
  refills _ _ hsource hpart hcounted hcountedPart :=
    deliversBeginning_of_counted (fun _ _ _ => Source.blur_script_congr) hsource hpart hcounted
      hcountedPart
  exactRefills hmark _ _ hsource hpart hcounted hcountedPart := by
    refine deliversBeginning_of_counted (fun first second hfirst hc hc' hbytes hfailure => ?_)
      hsource hpart hcounted hcountedPart
    rw [Source.script_congr hc hc' hbytes hfailure fun h => hmark (h.trans hfirst)]

/-- A document with a comment in its document type declaration is cut off inside its second tag and
comes in refills of three bytes: the first tag is delivered, as it is of the document in one
piece. -/
theorem deliver_cut_ofThree :
    let d := Utf8.encode "<!DOCTYPE a [<!--x-->]><a><b/></a>"
    let part := Source.chunked 3 (d.take 29) (some "lost")
    DashesCounted part.document ∧ part.elementCalls = [.start "a" []] ∧
      (Source.whole d).elementCalls =
        [.start "a" [], .start "b" [], .finish "b", .finish "a"] ∧
      DeliversBeginning id (.whole d) part := by
  intro d part
  have hcounted : DashesCounted part.document := by decide +kernel
  have hwhole : DashesCounted (Source.whole d).document :=
    Source.dashesCounted_chunked (Nat.le_refl _) none
  refine ⟨hcounted, by decide +kernel, by decide +kernel, ?_⟩
  exact (deliver_cut d 29).exactRefills (by decide +kernel) (.whole d) part
    (Source.flatten_chunks_of_length_le (Nat.le_refl _)) (Source.flatten_chunks (by decide) _)
    hwhole hcounted

/-- **In other refills, an element may be delivered that the document does not have**: the comment
that ends before the element in refills of three bytes ends behind it in one piece. -/
theorem deliver_cut_loneDashes :
    let d := Utf8.encode "<!DOCTYPE m [<!---xx->]><a/><!---->]>"
    let part := Source.chunked 3 (d.take 28)
    (Source.whole d).refills.flatten = d ∧
      (∀ failure?, (part failure?).refills.flatten = d.take 28) ∧
      (Source.whole d).elementCalls = [] ∧
      (part none).elementCalls = [.start "a" [], .finish "a"] ∧
      (part (some "source failed")).elementCalls = [.start "a" [], .finish "a"] := by
  intro d part
  refine ⟨Source.flatten_chunks_of_length_le (Nat.le_refl _),
    fun _ => Source.flatten_chunks (by decide) _, ?_, ?_, ?_⟩
  · decide +kernel
  · decide +kernel
  · decide +kernel

end IntervalDump
