import IntervalDump.Proofs.Delivery.Cut
import IntervalDump.Proofs.Delivery.Protocol
/-!
# Elements that are open at the end

**Theorem** (`deliver_unclosed`): if a document is read to its end and the handler takes all its
calls, the delivery succeeds just when every start has its end. Otherwise the error names the last
start without an end, as it is written in its tag, and the number of bytes that were read.

* **Only the end shows an open element** (`Script.isUnclosed_of_ofArrivals`): no fault of the bytes
  is taken for one.
* **The lexer counts the bytes** (`Script.position_of_ofArrivals`).
* **The element that is reported is the innermost pending one**, and this is the last start
  without an end (`Source.exists_unended`, from `Leaves.opens`).
-/

namespace IntervalDump

open Markup (Lexer)

/-! ## Faults that the bytes show -/

namespace Markup

/-- The fault is an element that was open at the end. -/
def Fault.isUnclosed : Fault → Bool
  | .unclosed .. => true
  | _ => false

/-- A fault of a tag is no open element. -/
theorem Fault.isUnclosed_of_isOfTag {fault : Fault} (h : fault.isOfTag = true) :
    fault.isUnclosed = false := by
  cases fault <;> first | rfl | cases h

end Markup

namespace Standing

variable {s : Standing} {fault : Markup.Fault}

/-- A tag shows no open element. -/
theorem isUnclosed_of_readToken {token : Markup.Token}
    (h : (s.readToken token).result = .error fault) : fault.isUnclosed = false := by
  cases token with
  | start content =>
    rcases htag : Markup.decodeTag content with earlier | tag <;>
      simp only [readToken, htag] at h <;> cases h
    exact Markup.Fault.isUnclosed_of_isOfTag (Markup.isOfTag_of_decodeTag htag)
  | empty content =>
    rcases htag : Markup.decodeTag content with earlier | tag <;>
      simp only [readToken, htag] at h <;> cases h
    exact Markup.Fault.isUnclosed_of_isOfTag (Markup.isOfTag_of_decodeTag htag)
  | finish raw =>
    rcases hname : Name.decode raw with earlier | name <;>
      simp only [readToken, hname] at h <;> cases h
    rfl

/-- A byte shows no open element. -/
theorem isUnclosed_of_readByte {b : UInt8} (h : (s.readByte b).result = .error fault) :
    fault.isUnclosed = false := by
  unfold readByte at h
  rcases hfeed : s.lexer.feed b with lexer | ⟨token, lexer⟩ | ⟨position, tokenFault⟩
  · rw [hfeed] at h
    cases h
  · rw [hfeed] at h
    exact isUnclosed_of_readToken h
  · rw [hfeed] at h
    cases h
    rfl

/-- What the end of a source shows of open elements is the innermost one. -/
theorem finish_eq_unclosed {failure? : Option String} {element : String} {position : Nat}
    (h : s.finish failure? = .error (.unclosed element position)) :
    ∃ name outer, s.pending = name :: outer ∧ element = name.text ∧
      position = s.lexer.position := by
  unfold finish at h
  rcases hfault : failure?.map .sourceFailed <|> s.lexer.finish? with _ | tokenFault
  · rw [hfault] at h
    rcases hpending : s.pending with _ | ⟨name, outer⟩
    · rw [hpending] at h
      cases h
    · rw [hpending] at h
      cases h
      exact ⟨name, outer, rfl, rfl, rfl⟩
  · rw [hfault] at h
    cases h

end Standing

/-! ## Where the lexer stands -/

namespace Markup.Lexer

variable {l m : Lexer} {b : UInt8}

/-- The end of a refill moves nothing forward. -/
@[simp] theorem position_endRefill (l : Lexer) : l.endRefill.position = l.position := by
  unfold endRefill
  split <;> rfl

/-- Every byte moves the lexer forward by one. -/
theorem position_of_next? (hnext : (l.feed b).next? = some m) : m.position = l.position + 1 := by
  have hfeeds := feeds_feed l b
  rcases hstep : l.feed b with next | ⟨token, next⟩ | ⟨position, fault⟩ <;>
    rw [hstep] at hfeeds hnext <;> cases hnext <;> cases hfeeds <;> rfl

end Markup.Lexer

/-- Every byte that comes in moves the lexer forward by one. -/
theorem Standing.position_of_arrive {s s' : Standing} {a : Arrival}
    (h : (s.arrive a).result = .ok s') : s'.lexer.position = s.lexer.position + 1 := by
  have hnotice : (s.notice a).lexer.position = s.lexer.position := by
    rcases s.notice_eq a with hsame | hend
    · rw [hsame]
    · rw [hend]
      exact Lexer.position_endRefill s.lexer
  rw [Lexer.position_of_next? (next?_of_readByte h), hnotice]

namespace Script

variable {arrivals : List Arrival}

/-- **The lexer stands behind the bytes that were read.** -/
theorem position_of_ofArrivals {s : Standing} (h : (ofArrivals arrivals).result = .ok s) :
    s.lexer.position = arrivals.length := by
  refine ofArrivals_induction (P := fun arrivals s => s.lexer.position = arrivals.length) rfl ?_ h
  intro arrivals s a s' _ ih hresult
  rw [Standing.position_of_arrive hresult, ih, List.length_append, List.length_singleton]

/-- **No fault of the bytes is an element that was open at the end.** -/
theorem isUnclosed_of_ofArrivals {fault : Markup.Fault}
    (h : (ofArrivals arrivals).result = .error fault) : fault.isUnclosed = false := by
  induction arrivals using List.reverseRecOn with
  | nil => cases h
  | append_singleton arrivals a ih =>
    rcases hbefore : (ofArrivals arrivals).result with earlier | s
    · rw [ofArrivals_append_of_error hbefore] at h
      cases h
      exact ih hbefore
    · rw [ofArrivals_concat_of_ok hbefore] at h
      exact Standing.isUnclosed_of_readByte h

end Script

/-! ## The element that is reported -/

namespace Source

variable {source : Source}

/-- **The element that is reported is the last one without an end.** -/
theorem exists_unended {element : String} {position : Nat}
    (h : source.script.fault? = some (.unclosed element position)) :
    ∃ before name attributes after,
      source.elementCalls = before ++ .startElement name attributes :: after ∧
        WellNested after ∧ element = name.text ∧ position = source.bytes.length := by
  unfold Script.fault? at h
  rcases hresult : source.script.result with fault | elements <;> rw [hresult] at h <;> cases h
  rcases hread : (Script.ofArrivals source.arrivals).result with fault | s
  · rw [result_script_of_error source hread] at hresult
    cases hresult
    cases Script.isUnclosed_of_ofArrivals hread
  · rw [result_script_of_ok source hread] at hresult
    obtain ⟨name, outer, hpending, helement, hposition⟩ := Standing.finish_eq_unclosed hresult
    have hleaves := ((keeps_ofArrivals source.arrivals).inStep s hread).leaves
    rw [List.nil_append, hpending] at hleaves
    have hopens := hleaves.opens
    rw [← elementCalls_eq] at hopens
    generalize source.elementCalls = calls at hopens ⊢
    cases hopens with
    | cons _ attributes hbefore hafter =>
      refine ⟨_, name, attributes, _, rfl, hafter, helement, ?_⟩
      rw [hposition, Script.position_of_ofArrivals hread, ← map_byte_arrivals, List.length_map]

/-- A complete document is delivered with its end, and is nested. -/
theorem exists_complete {elements : Nat} (h : source.script.result = .ok elements) :
    source.script.delivered = .startDocument :: source.elementCalls ++ [.endDocument] ∧
      WellNested source.elementCalls := by
  obtain ⟨events, pending, hevents, hleaves, hok⟩ := source.exists_elements
  have hcalls : source.elementCalls = events := by
    rw [elementCalls_eq]
    rw [events_script] at hevents
    exact (List.cons.inj hevents).2
  obtain ⟨rfl, -⟩ := hok elements h
  refine ⟨?_, ?_⟩
  · rw [Script.delivered_of_ok h, hevents, hcalls]
  · have hnested := hleaves.wellNested
    rwa [List.map_nil, List.append_nil, ← hcalls] at hnested

end Source

/-! ## What a delivery tells about open elements -/

/-- What comes of a document that is read to its end. -/
structure TellsUnclosed {ε σ : Type} (h : Handler ε σ) (source : Source) (s : σ) : Prop where
  succeeds : (deliver h source s).error? = none ↔ Event.AllEnded (h.calls source s)
  complete : (deliver h source s).error? = none →
    h.calls source s = .startDocument :: source.elementCalls ++ [.endDocument]
  /-- The error names the last start without an end, as its tag spells it. -/
  fails : (deliver h source s).error? ≠ none → .endDocument ∉ h.calls source s ∧
    ∃ before name attributes after,
      h.calls source s = .startDocument :: before ++ .startElement name attributes :: after ∧
      ¬ Event.IsEnded name after ∧ Event.AllEnded after ∧
      source.HasTag (Utf8.encode name.text) before (.startElement name attributes) ∧
      (deliver h source s).error? = some (h.fault (.unclosed name.text source.bytes.length))
  position : ¬ Source.byteOrderMark <+: source.refills.flatten →
    source.bytes.length = source.refills.flatten.length

section Telling

variable {ε σ : Type} {h : Handler ε σ} {source : Source} {s : σ}

/-- A handler that takes all its calls is called with everything that the source gives. -/
theorem calls_eq_delivered (hcalls : (replay h (h.calls source s) s).error? = none) :
    h.calls source s = source.script.delivered := by
  rw [replay_calls] at hcalls
  rw [Handler.calls_eq, h.called_eq_self hcalls]

/-- A handler that takes all its calls fails for a fault of the document only. -/
theorem error?_deliver_of_calls (hcalls : (replay h (h.calls source s) s).error? = none) :
    (deliver h source s).error? = source.script.fault?.map h.fault := by
  rw [replay_calls] at hcalls
  rw [error?_deliver, hcalls, Option.none_or]

/-- Without a mark, the document is as long as what was handed out. -/
theorem length_bytes_of_not_mark (h : ¬ Source.byteOrderMark <+: source.refills.flatten) :
    source.bytes.length = source.refills.flatten.length := by
  rw [Source.bytes_of_not_mark h]

/-- A document without a fault has no open element. -/
theorem tellsUnclosed_of_ok (hcalls : (replay h (h.calls source s) s).error? = none)
    {elements : Nat} (hresult : source.script.result = .ok elements) :
    TellsUnclosed h source s := by
  obtain ⟨hcomplete, hnested⟩ := Source.exists_complete hresult
  rw [← calls_eq_delivered hcalls] at hcomplete
  have hnone : (deliver h source s).error? = none := by
    rw [error?_deliver_of_calls hcalls, Script.fault?, hresult, Option.map_none]
  have hended : Event.AllEnded (h.calls source s) := by
    rw [hcomplete]
    exact (hnested.allEnded.cons rfl).concat rfl
  exact ⟨⟨fun _ => hended, fun _ => hnone⟩, fun _ => hcomplete, fun hsome => absurd hnone hsome,
    length_bytes_of_not_mark⟩

/-- A document that ends in an open element has a last start without an end. -/
theorem tellsUnclosed_of_unclosed (hcalls : (replay h (h.calls source s) s).error? = none)
    {element : String} {position : Nat}
    (hfault : source.script.fault? = some (.unclosed element position)) :
    TellsUnclosed h source s := by
  obtain ⟨before, name, attributes, after, hsplit, hafter, rfl, rfl⟩ :=
    Source.exists_unended hfault
  obtain ⟨raw, htag⟩ := Source.hasTag_of_elementCalls hsplit
  have hfails : (deliver h source s).error? =
      some (h.fault (.unclosed name.text source.bytes.length)) := by
    rw [error?_deliver_of_calls hcalls, hfault, Option.map_some]
  have hsome : (deliver h source s).error? ≠ none := by
    rw [hfails]
    exact Option.some_ne_none _
  have hnoEnd : .endDocument ∉ h.calls source s := by
    rw [calls_eq_delivered hcalls, ← toList_state_deliver_recorder]
    exact Source.endDocument_not_mem hfault
  have hall : h.calls source s =
      .startDocument :: before ++ .startElement name attributes :: after := by
    rw [calls_eq_delivered hcalls, Script.delivered_of_fault? hfault, Source.events_script,
      ← Source.elementCalls_eq, hsplit, List.cons_append]
  have hunended : ¬ Event.IsEnded name after := hafter.not_isEnded name
  refine ⟨⟨fun hnone => absurd hnone hsome, fun hended => ?_⟩, fun hnone => absurd hnone hsome,
    fun _ => ⟨hnoEnd, before, name, attributes, after, hall, hunended, hafter.allEnded, ?_, hfails⟩,
    length_bytes_of_not_mark⟩
  · exact absurd (hended _ _ _ _ hall) hunended
  · rwa [htag.encode_text rfl]

/-- **The element that is reported is the last one that was started and not ended.** The document is
read to its end: the only thing that may be wrong with it is an open element. -/
theorem deliver_unclosed
    (hread : ∀ fault, (deliver Handler.recorder source #[]).error? = some fault →
      ∃ element position, fault = .unclosed element position)
    (hcalls : (replay h (h.calls source s) s).error? = none) : TellsUnclosed h source s := by
  rw [error?_deliver_recorder] at hread
  rcases hresult : source.script.result with fault | elements
  · have hfault : source.script.fault? = some fault := by rw [Script.fault?, hresult]
    obtain ⟨element, position, rfl⟩ := hread fault hfault
    exact tellsUnclosed_of_unclosed hcalls hfault
  · exact tellsUnclosed_of_ok hcalls hresult

end Telling

/-- The element of a document that was cut off in its second `m:c`. -/
theorem deliver_unclosed_secondElement :
    (deliver Handler.recorder (.ofText "<a><b x='1'/><m:c></m:c><m:c>") #[]).error? =
        some (.unclosed "m:c" 29) ∧
      TellsUnclosed Handler.recorder (.ofText "<a><b x='1'/><m:c></m:c><m:c>") #[] :=
  have herror : (deliver Handler.recorder (.ofText "<a><b x='1'/><m:c></m:c><m:c>") #[]).error? =
      some (.unclosed "m:c" 29) := by decide +kernel
  ⟨herror, deliver_unclosed (fun fault hfault => ⟨"m:c", 29, by
    rw [herror] at hfault
    exact (Option.some.inj hfault).symm⟩) (by decide +kernel)⟩

end IntervalDump
