import IntervalDump.Proofs.Delivery.InStep
import IntervalDump.Proofs.Delivery.Replay
/-!
# The protocol of calls

**Theorem** (`deliver_obeysProtocol`): whatever the document and whatever the handler, the calls of
a delivery are the start of the document, the beginning of a well-nested list, and the end of the
document only behind a complete one; nothing is called behind a failure of either side.

The calls are the part of the script's events that a replay gets to (`Handler.calls_eq`), so their
order is that of the script (`Source.exists_elements`). That an end tag can always be delivered is
`Delivery.exists_pending_of_upTo`: a delivery stands where its script stands, and there both stacks
are in step.
-/

namespace IntervalDump

variable {ε σ : Type}

/-! ## The events of a source -/

namespace Standing

/-- A complete document leaves nothing pending. -/
theorem finish_eq_ok {s : Standing} {failure? : Option String} {elements : Nat}
    (h : s.finish failure? = .ok elements) : s.pending = [] ∧ s.elements = elements := by
  unfold finish at h
  rcases hfault : failure?.map .sourceFailed <|> s.lexer.finish? with _ | fault
  · rw [hfault] at h
    cases hpending : s.pending with
    | cons element outer =>
      rw [hpending] at h
      cases h
    | nil =>
      rw [hpending] at h
      cases h
      exact ⟨rfl, rfl⟩
  · rw [hfault] at h
    cases h

end Standing

/-- A source gives the start of the document and nested elements; if it gives a whole document, all
of them are closed and counted. -/
theorem Source.exists_elements (source : Source) :
    ∃ elements pending, source.script.events = .startDocument :: elements ∧
      Leaves elements pending ∧
      ∀ n, source.script.result = .ok n → pending = [] ∧ elements.countP Event.isStart = n := by
  let rest := source.document.foldlM Standing.readRefill {}
  have hkeeps : Keeps [] rest := keeps_refills inStep_nil source.document
  have hbody : source.body = ⟨.startDocument :: rest.events, rest.result⟩ :=
    Script.bind_of_ok rfl _
  rcases hrest : rest.result with fault | s
  · obtain ⟨pending, hleaves⟩ := hkeeps.leaves
    have hscript : source.script = ⟨source.body.events, .error fault⟩ :=
      Script.bind_of_error (by rw [hbody, hrest]) _
    refine ⟨rest.events, pending, ?_, hleaves, ?_⟩
    · rw [hscript, hbody]
    · intro n hn
      rw [hscript] at hn
      cases hn
  · have hs : InStep rest.events s := hkeeps.inStep s hrest
    have hscript : source.script = ⟨source.body.events ++ [], s.finish source.failure?⟩ :=
      Script.bind_of_ok (by rw [hbody, hrest]) _
    refine ⟨rest.events, s.pending, ?_, hs.leaves, ?_⟩
    · rw [hscript, hbody, List.append_nil]
    · intro n hn
      rw [hscript] at hn
      obtain ⟨hpending, helements⟩ := Standing.finish_eq_ok hn
      exact ⟨hpending, hs.elements.trans helements⟩

/-! ## The calls of a delivery -/

namespace Handler

variable (h : Handler ε σ) (source : Source) (s : σ)

/-- The calls that a delivery makes, the failing one included. -/
def calls : List Event :=
  (deliver h.traced source (s, [])).state.2

/-- A handler is called with what is delivered, up to its failure. -/
theorem calls_eq : h.calls source s = h.called source.script.delivered s := by
  rw [calls, state_deliver, replay_traced]
  rfl

end Handler

namespace Delivery

/-- A delivery that has read some refills and a part of the next one. -/
def upTo (h : Handler ε σ) (earlier : List (List UInt8)) (read : List UInt8) (s : σ) :
    Outcome ε (Delivery σ) :=
  ((call h.startDocument { handler := s }).andThen (Outcome.each (receiveRefill h) earlier)).andThen
    (Outcome.each (receiveByte h) read)

end Delivery

/-- What the calls of a delivery keep to. -/
structure ObeysProtocol (h : Handler ε σ) (source : Source) (s : σ) : Prop where
  /-- First the start of the document, once; then the beginning of a well-nested list; the end of
  the document last, if at all, and only behind a list that is complete. -/
  nested : ∃ elements more, WellNested (elements ++ more) ∧
    (h.calls source s = .startDocument :: elements ∨
      more = [] ∧ h.calls source s = .startDocument :: elements ++ [.endDocument])
  /-- No call is made behind one that failed. -/
  healthy : ∀ before e after, h.calls source s = before ++ e :: after →
    (replay h before s).error? = none
  /-- The handler is where the calls have brought it. -/
  state : (deliver h source s).state = (replay h (h.calls source s) s).state
  /-- Nothing is called behind a failure of the handler or a fault in the bytes. -/
  stopped : ∀ earlier read unread later,
    source.document = earlier ++ (read ++ unread) :: later →
      (Delivery.upTo h.traced earlier read (s, [])).error?.isSome →
        deliver h.traced source (s, []) =
          (Delivery.upTo h.traced earlier read (s, [])).map Delivery.handler
  /-- A faulty document has no end. -/
  faulty : (replay h (h.calls source s) s).error? = none → (deliver h source s).error?.isSome →
    .endDocument ∉ h.calls source s
  /-- When an end tag is completed, its name can be decoded, and the innermost pending element has
  that name. -/
  matching : ∀ earlier read b unread later,
    source.document = earlier ++ (read ++ b :: unread) :: later →
      (Delivery.upTo h earlier read s).error? = none →
        let d := (Delivery.upTo h earlier read s).state
        ∀ raw lexer, d.lexer.feed b = .token (.finish raw) lexer →
          ∃ name outer, Name.decode raw = .ok name ∧ d.pending = name :: outer
  /-- In a delivery that succeeds, as many elements were started, were ended, and are reported. -/
  counted : (deliver h source s).error? = none →
    ∃ elements n, h.calls source s = .startDocument :: elements ++ [.endDocument] ∧
      elements.countP Event.isStart = n ∧ elements.countP Event.isEnd = n ∧
      (deliver h source s).notices =
        (replay h (.startDocument :: elements) s).notices ++ (#[.elementsDelivered n] ++
          (h.endDocument (replay h (.startDocument :: elements) s).state).notices)

/-! ## The order of the calls -/

section Order

variable {h : Handler ε σ} {source : Source} {s : σ}

/-- The calls are nested, or what is missing would nest them. -/
theorem nested_calls : ∃ elements more, WellNested (elements ++ more) ∧
    (h.calls source s = .startDocument :: elements ∨
      more = [] ∧ h.calls source s = .startDocument :: elements ++ [.endDocument]) := by
  obtain ⟨elements, pending, hevents, hleaves, hok⟩ := source.exists_elements
  have hprefix {part : List Event} (hpart : part <+: elements) :
      ∃ more, WellNested (part ++ more) := by
    obtain ⟨more, rfl⟩ := hpart
    have hnested := hleaves.wellNested
    rw [List.append_assoc] at hnested
    exact ⟨_, hnested⟩
  rcases hresult : source.script.result with fault | n
  · obtain ⟨part, hcalled, hpart⟩ := h.exists_called_cons .startDocument elements s
    obtain ⟨more, hnested⟩ := hprefix hpart
    refine ⟨part, more, hnested, .inl ?_⟩
    rw [Handler.calls_eq, Script.delivered_of_error hresult, hevents, hcalled]
  · obtain ⟨part, hcalled, hpart⟩ :=
      h.exists_called_cons .startDocument (elements ++ [.endDocument]) s
    have hcalls : h.calls source s = .startDocument :: part := by
      rw [Handler.calls_eq, Script.delivered_of_ok hresult, hevents, List.cons_append, hcalled]
    rcases List.prefix_concat_iff.mp hpart with hall | hpart
    · obtain ⟨rfl, -⟩ := hok n hresult
      have hnested := hleaves.wellNested
      refine ⟨elements, [], hnested, .inr ⟨rfl, ?_⟩⟩
      rw [hcalls, hall]
      rfl
    · obtain ⟨more, hnested⟩ := hprefix hpart
      exact ⟨part, more, hnested, .inl hcalls⟩

/-- Whoever is called has not failed before. -/
theorem healthy_calls {before after : List Event} {e : Event}
    (hcalls : h.calls source s = before ++ e :: after) : (replay h before s).error? = none := by
  rw [Handler.calls_eq] at hcalls
  exact h.error?_of_called_eq hcalls

/-- The calls do all that the delivery does. -/
theorem replay_calls : replay h (h.calls source s) s = replay h source.script.delivered s := by
  rw [Handler.calls_eq, Handler.replay_called]

/-- Behind a fault of the document there is no end of it. -/
theorem faulty_calls (hhandler : (replay h (h.calls source s) s).error? = none)
    (hfails : (deliver h source s).error?.isSome) : .endDocument ∉ h.calls source s := by
  rw [replay_calls] at hhandler
  rw [error?_deliver, hhandler, Option.none_or] at hfails
  rcases hresult : source.script.result with fault | n
  · obtain ⟨elements, pending, hevents, hleaves, -⟩ := source.exists_elements
    rw [Handler.calls_eq, h.called_eq_self hhandler, Script.delivered_of_error hresult, hevents]
    intro hmem
    rcases List.mem_cons.mp hmem with heq | hmem
    · cases heq
    · exact hleaves.endDocument_not_mem hmem
  · rw [Script.fault?, hresult] at hfails
    cases hfails

/-- The number of elements is told before the handler hears of the end. -/
theorem notices_close (n : Nat) (s : σ) :
    (Delivery.close h n s).notices = #[.elementsDelivered n] ++ (h.endDocument s).notices := by
  rw [Delivery.close, Outcome.notices_andThen_of_ok rfl]
  rfl

/-- A delivery that succeeds reports how many elements were started and ended. -/
theorem counted_calls (hok : (deliver h source s).error? = none) :
    ∃ elements n, h.calls source s = .startDocument :: elements ++ [.endDocument] ∧
      elements.countP Event.isStart = n ∧ elements.countP Event.isEnd = n ∧
      (deliver h source s).notices =
        (replay h (.startDocument :: elements) s).notices ++ (#[.elementsDelivered n] ++
          (h.endDocument (replay h (.startDocument :: elements) s).state).notices) := by
  rw [error?_deliver] at hok
  obtain ⟨hhandler, hfault⟩ := Option.or_eq_none_iff.mp hok
  rcases hresult : source.script.result with fault | n
  · rw [Script.fault?, hresult] at hfault
    cases hfault
  · obtain ⟨elements, pending, hevents, hleaves, hcount⟩ := source.exists_elements
    obtain ⟨rfl, hstarts⟩ := hcount n hresult
    have hdelivered := Script.delivered_of_ok hresult
    have hends : elements.countP Event.isEnd = n := by
      rw [← hstarts, hleaves.countP_isStart, List.length_nil, Nat.add_zero]
    refine ⟨elements, n, ?_, hstarts, hends, ?_⟩
    · rw [Handler.calls_eq, h.called_eq_self hhandler, hdelivered, hevents]
    · rw [hdelivered, replay_append] at hhandler
      have hreplay := (Outcome.error?_andThen_eq_none.mp hhandler).1
      rw [deliver_eq, Script.run_of_ok hresult, Outcome.notices_andThen_of_ok hreplay,
        notices_close, hevents]

end Order

/-! ## Calls and failures along the way -/

namespace Delivery

variable {h : Handler ε σ}

/-- A delivery that failed on the way ends there. -/
theorem deliver_eq_of_upTo {source : Source} {s : σ} {earlier later : List (List UInt8)}
    {read unread : List UInt8} (hdocument : source.document = earlier ++ (read ++ unread) :: later)
    (hfails : (upTo h earlier read s).error?.isSome) :
    deliver h source s = (upTo h earlier read s).map Delivery.handler := by
  obtain ⟨error, herror⟩ := Option.isSome_iff_exists.mp hfails
  let before := (call h.startDocument { handler := s }).andThen
    (Outcome.each (receiveRefill h) earlier)
  have hall : (call h.startDocument { handler := s }).andThen
      (Outcome.each (receiveRefill h) source.document) =
        before.andThen (Outcome.each (receiveRefill h) ((read ++ unread) :: later)) := by
    rw [hdocument, ← Outcome.foldl_andThen, List.foldl_append, Outcome.foldl_andThen,
      Outcome.foldl_andThen]
  rw [deliver, hall]
  change (before.andThen (Outcome.each (receiveByte h) read)).error? = some error at herror
  change _ = (before.andThen (Outcome.each (receiveByte h) read)).map Delivery.handler
  rcases hbefore : before.error? with _ | earlierError
  · -- the refill fails where its first part does, and nothing behind it is done
    rw [Outcome.error?_andThen_of_ok hbefore] at herror
    have hrefills : Outcome.each (receiveRefill h) ((read ++ unread) :: later) before.state =
        (Outcome.each (receiveByte h) read before.state).map fun d =>
          { d with lexer := d.lexer.endRefill } := by
      rw [Outcome.each_cons, receiveRefill, Outcome.each_append, Outcome.andThen_of_error herror]
      exact Outcome.map_andThen_of_error herror _ _
    have hfailed : (before.andThen
        (Outcome.each (receiveRefill h) ((read ++ unread) :: later))).error? = some error := by
      rw [Outcome.error?_andThen_of_ok hbefore, hrefills]
      exact herror
    rw [Outcome.andThen_of_error hfailed]
    simp only [Outcome.andThen, hbefore, hrefills, Outcome.map]
  · rw [Outcome.andThen_of_error hbefore, Outcome.andThen_of_error hbefore,
      Outcome.andThen_of_error hbefore]

/-- Wherever a delivery stands, the stacks are in step. -/
theorem inStep_of_upTo {s : σ} {earlier : List (List UInt8)} {read : List UInt8}
    (hok : (upTo h earlier read s).error? = none) :
    ∃ elements, InStep elements (upTo h earlier read s).state.standing := by
  rw [upTo, Outcome.andThen_assoc] at hok ⊢
  obtain ⟨hstart, hrest⟩ := Outcome.error?_andThen_eq_none.mp hok
  rw [Outcome.state_andThen_of_ok hstart]
  let d := (call h.startDocument { handler := s }).state
  let script := earlier.foldlM Standing.readRefill {} >>= fun s => read.foldlM Standing.readByte s
  have hperforms : Performs h script d.handler ((Outcome.each (receiveRefill h) earlier d).andThen
      (Outcome.each (receiveByte h) read)) :=
    (performs_refills earlier d).andThen (performs_each performs_receiveByte read)
  have hkeeps : Keeps [] script :=
    (keeps_refills inStep_nil earlier).bind fun _ hs => keeps_foldlM keeps_readByte hs read
  exact ⟨_, hkeeps.inStep _ (hperforms.standing hrest)⟩

/-- **An end tag can always be delivered.** -/
theorem exists_pending_of_upTo {s : σ} {earlier : List (List UInt8)} {read : List UInt8} {b : UInt8}
    (hok : (upTo h earlier read s).error? = none) {raw : List UInt8} {lexer : Markup.Lexer}
    (hfeed : (upTo h earlier read s).state.lexer.feed b = .token (.finish raw) lexer) :
    ∃ name outer, Name.decode raw = .ok name ∧
      (upTo h earlier read s).state.pending = name :: outer := by
  obtain ⟨elements, hs⟩ := inStep_of_upTo hok
  have hfollows := Markup.Lexer.feed_follows (upTo h earlier read s).state.lexer b
  rw [hfeed] at hfollows
  exact hs.exists_pending hfollows

end Delivery

/-- **Every delivery keeps to the protocol of calls.** -/
theorem deliver_obeysProtocol (h : Handler ε σ) (source : Source) (s : σ) :
    ObeysProtocol h source s where
  nested := nested_calls
  healthy _ _ _ hcalls := healthy_calls hcalls
  state := by rw [state_deliver, replay_calls]
  stopped _ _ _ _ hdocument hfails := Delivery.deliver_eq_of_upTo hdocument hfails
  faulty hhandler hfails := faulty_calls hhandler hfails
  matching _ _ _ _ _ _ hok _ _ hfeed := Delivery.exists_pending_of_upTo hok hfeed
  counted hok := counted_calls hok

/-- The end of the document stays out, since its last element is never closed. -/
example : (deliver Handler.recorder (.ofText "<a><b x=\"1\"/></a><c>") #[]).state =
    #[.startDocument, .start "a" [], .start "b" [("x", "1")], .finish "b", .finish "a",
      .start "c" []] := by
  decide +kernel

end IntervalDump
