import IntervalDump.Delivery
/-!
# Deliveries as scripts

What a document gives to a handler does not depend on the handler, except that the delivery ends
where the handler fails. This file separates the two.

* **A script** (`Script`) is what a stretch of a document gives to any handler: events, and behind
  them a result or a fault of the document.
* **Reading without a handler** (`Standing.readByte`, `Standing.readRefill`, `Source.script`) takes
  the same steps as a delivery and writes a script.
* **A delivery performs the script of its source** (`deliver_eq`): it replays the events, and if the
  handler took them all, it ends as the script does.

`Performs` compares a delivery with a script by what any further step makes of both, so steps can be
put in a row (`Performs.andThen`) without telling the ways to fail apart.
-/

namespace IntervalDump

/-! ## Scripts -/

/-- What a stretch of a document gives to any handler. -/
structure Script (α : Type) where
  events : List Event
  /-- What stands behind the events. -/
  result : Except Markup.Fault α

namespace Script

variable {α β : Type} {ε σ : Type}

/-- Nothing but a fault. -/
def stop (fault : Markup.Fault) : Script α :=
  ⟨[], .error fault⟩

/-- Goes on behind a script, unless it ended with a fault. -/
def andThen (script : Script α) (next : α → Script β) : Script β :=
  match script.result with
  | .error fault => ⟨script.events, .error fault⟩
  | .ok a => ⟨script.events ++ (next a).events, (next a).result⟩

instance : Monad Script where
  pure a := ⟨[], .ok a⟩
  bind := andThen

/-- Behind a result, the events of the next script are appended. -/
theorem bind_of_ok {script : Script α} {a : α} (h : script.result = .ok a) (next : α → Script β) :
    script >>= next = ⟨script.events ++ (next a).events, (next a).result⟩ := by
  show script.andThen next = _
  rw [andThen, h]

/-- Behind a fault, the next script does not matter. -/
theorem bind_of_error {script : Script α} {fault : Markup.Fault} (h : script.result = .error fault)
    (next : α → Script β) : script >>= next = ⟨script.events, .error fault⟩ := by
  show script.andThen next = _
  rw [andThen, h]

/-- Replays the events to a handler, and ends with the fault, or with what is done behind them. -/
def run (h : Handler ε σ) (close : α → σ → Outcome ε σ) (script : Script α) (s : σ) :
    Outcome ε σ :=
  (replay h script.events s).andThen fun s =>
    match script.result with
    | .error fault => .fail (h.fault fault) s
    | .ok a => close a s

/-- A script with a result is a replay, with the closing behind it. -/
theorem run_of_ok {script : Script α} {a : α} (hresult : script.result = .ok a) (h : Handler ε σ)
    (close : α → σ → Outcome ε σ) (s : σ) :
    script.run h close s = (replay h script.events s).andThen (close a) := by
  rw [run, hresult]

/-- A script with a fault is a replay that ends in it. -/
theorem run_of_error {script : Script α} {fault : Markup.Fault}
    (hresult : script.result = .error fault) (h : Handler ε σ) (close : α → σ → Outcome ε σ)
    (s : σ) :
    script.run h close s = (replay h script.events s).andThen (.fail (h.fault fault)) := by
  rw [run, hresult]

/-- A script without events is what stands behind them. -/
theorem run_of_nil {script : Script α} (hevents : script.events = []) (h : Handler ε σ)
    (close : α → σ → Outcome ε σ) (s : σ) :
    script.run h close s =
      match script.result with
      | .error fault => .fail (h.fault fault) s
      | .ok a => close a s := by
  rw [run, hevents]
  exact Outcome.andThen_ok s _

/-- **A script that goes on is run in a row.** -/
theorem run_bind (script : Script α) (next : α → Script β) (h : Handler ε σ)
    (close : β → σ → Outcome ε σ) (s : σ) :
    (script >>= next).run h close s = script.run h (fun a => (next a).run h close) s := by
  rcases hresult : script.result with fault | a
  · rw [bind_of_error hresult, run_of_error rfl, run_of_error hresult]
  · rw [bind_of_ok hresult, run_of_ok hresult, run, replay_append, Outcome.andThen_assoc]
    rfl

end Script

/-! ## Reading without a handler -/

/-- Where a delivery stands, whoever receives the events. -/
structure Standing where
  lexer : Markup.Lexer := {}
  pending : List Name := []
  elements : Nat := 0

namespace Standing

/-- Gives one event. -/
def emit (event : Event) (s : Standing) : Script Standing :=
  ⟨[event], .ok s⟩

/-- A completed tag. -/
def readToken (token : Markup.Token) (s : Standing) : Script Standing :=
  match token with
  | .start content =>
    match Markup.decodeTag content with
    | .error fault => .stop fault
    | .ok (name, attributes) => do
      let s ← s.emit (.startElement name attributes)
      return { s with pending := name :: s.pending, elements := s.elements + 1 }
  | .empty content =>
    match Markup.decodeTag content with
    | .error fault => .stop fault
    | .ok (name, attributes) => do
      let s ← s.emit (.startElement name attributes) >>= emit (.endElement name)
      return { s with elements := s.elements + 1 }
  | .finish raw =>
    match Name.decode raw with
    | .error fault => .stop (.encoding fault)
    | .ok name => do
      let s ← s.emit (.endElement name)
      return { s with pending := s.pending.drop 1 }

/-- What a byte gives. -/
def readByte (s : Standing) (b : UInt8) : Script Standing :=
  match s.lexer.feed b with
  | .quiet lexer => pure { s with lexer }
  | .token token lexer => readToken token { s with lexer }
  | .fault position fault => .stop (.token position fault)

/-- The refill ends here. -/
def endRefill (s : Standing) : Standing :=
  { s with lexer := s.lexer.endRefill }

/-- What a refill gives, its end included. -/
def readRefill (s : Standing) (refill : List UInt8) : Script Standing := do
  let s ← refill.foldlM readByte s
  return s.endRefill

/-- The end of the source. If the document is complete, the number of its elements. -/
def finish (failure? : Option String) (s : Standing) : Except Markup.Fault Nat :=
  match failure?.map .sourceFailed <|> s.lexer.finish? with
  | some fault => .error (.token s.lexer.stand fault)
  | none =>
    match s.pending with
    | element :: _ => .error (.unclosed element.text s.lexer.position)
    | [] => .ok s.elements

end Standing

namespace Source

/-- The start of a document and all its tags. -/
def body (source : Source) : Script Standing := do
  let s ← ⟨[.startDocument], .ok {}⟩
  source.document.foldlM Standing.readRefill s

/-- Everything that a source gives to a handler before the end of the document. -/
def script (source : Source) : Script Nat := do
  let s ← source.body
  ⟨[], s.finish source.failure?⟩

end Source

/-! ## A delivery performs a script -/

namespace Delivery

variable {ε σ : Type} {h : Handler ε σ}

/-- What the delivery knows of the document. -/
def standing (d : Delivery σ) : Standing :=
  ⟨d.lexer, d.pending, d.elements⟩

/-- What a delivery does behind the events of a complete document. -/
def close (h : Handler ε σ) (elements : Nat) (s : σ) : Outcome ε σ :=
  (Outcome.tell (.elementsDelivered elements) s).andThen h.endDocument

/-- The outcome `o` is that of a delivery of this script to a handler that stood at `s`. -/
structure Performs (h : Handler ε σ) (script : Script Standing) (s : σ)
    (o : Outcome ε (Delivery σ)) : Prop where
  /-- Whatever is done behind the delivery is done behind the script. -/
  run : ∀ (step : Delivery σ → Outcome ε (Delivery σ)) (close : Standing → σ → Outcome ε σ),
    (∀ d, (step d).map Delivery.handler = close d.standing d.handler) →
      (o.andThen step).map Delivery.handler = script.run h close s
  standing : o.error? = none → script.result = .ok o.state.standing

/-- A delivery that goes on performs the script that goes on. -/
theorem Performs.andThen {script : Script Standing} {s : σ} {o : Outcome ε (Delivery σ)}
    (ho : Performs h script s o) {step : Delivery σ → Outcome ε (Delivery σ)}
    {next : Standing → Script Standing}
    (hstep : ∀ d, Performs h (next d.standing) d.handler (step d)) :
    Performs h (script >>= next) s (o.andThen step) := by
  constructor
  · intro step' close hclose
    rw [Outcome.andThen_assoc, Script.run_bind]
    exact ho.run _ _ fun d => (hstep d).run step' close hclose
  · intro hnone
    obtain ⟨hfirst, hsecond⟩ := Outcome.error?_andThen_eq_none.mp hnone
    rw [Script.bind_of_ok (ho.standing hfirst), Outcome.state_andThen_of_ok hfirst]
    exact (hstep o.state).standing hsecond

/-- Bookkeeping behind a delivery. -/
theorem Performs.map {script : Script Standing} {s : σ} {o : Outcome ε (Delivery σ)}
    (ho : Performs h script s o) {f : Delivery σ → Delivery σ} {g : Standing → Standing}
    (hhandler : ∀ d, (f d).handler = d.handler) (hstanding : ∀ d, (f d).standing = g d.standing) :
    Performs h (script >>= fun a => pure (g a)) s (o.map f) := by
  constructor
  · intro step close hclose
    have hbehind : ((o.map f).andThen step).map Delivery.handler =
        (o.andThen fun d => step (f d)).map Delivery.handler := by
      rcases hfail : o.error? with _ | error
      · simp [Outcome.andThen, Outcome.map, hfail]
      · simp [Outcome.andThen, Outcome.map, hfail, hhandler]
    rw [hbehind, Script.run_bind]
    refine ho.run _ _ ?_
    intro d
    rw [hclose, hhandler, hstanding, Script.run_of_nil rfl]
    rfl
  · intro hnone
    rw [Script.bind_of_ok (ho.standing hnone), Outcome.state_map, hstanding]
    rfl

/-- A fault ends the delivery and the script. -/
theorem performs_stop (fault : Markup.Fault) (d : Delivery σ) :
    Performs h (.stop fault) d.handler (.fail (h.fault fault) d) := by
  refine ⟨?_, fun hnone => by simp at hnone⟩
  intro step close _
  rw [Outcome.andThen_fail, Script.run_of_nil rfl]
  rfl

/-- Doing nothing gives nothing. -/
theorem performs_ok (d : Delivery σ) : Performs h (pure d.standing) d.handler (.ok d) := by
  refine ⟨?_, fun _ => rfl⟩
  intro step close hclose
  rw [Outcome.andThen_ok, Script.run_of_nil rfl, hclose]
  rfl

/-- Calling the handler with an event gives the event. -/
theorem performs_call (e : Event) (d : Delivery σ) :
    Performs h (d.standing.emit e) d.handler (call (h.receive e) d) := by
  refine ⟨?_, fun _ => rfl⟩
  intro step close hclose
  have hbehind : ((call (h.receive e) d).andThen step).map Delivery.handler =
      (h.receive e d.handler).andThen (close d.standing) := by
    rw [call, Outcome.map_andThen_map fun _ => rfl]
    congr 1
    funext s
    exact hclose { d with handler := s }
  rw [hbehind, Script.run_of_ok rfl, Standing.emit, replay_singleton]

/-- **A tag gives the same to a handler as to a script.** -/
theorem performs_receiveToken (token : Markup.Token) (d : Delivery σ) :
    Performs h (d.standing.readToken token) d.handler (receiveToken h token d) := by
  cases token with
  | start content =>
    simp only [receiveToken, Standing.readToken]
    cases Markup.decodeTag content with
    | error fault => exact performs_stop fault d
    | ok tag =>
      obtain ⟨name, attributes⟩ := tag
      exact (performs_call (.startElement name attributes) d).map (fun _ => rfl) fun _ => rfl
  | empty content =>
    simp only [receiveToken, Standing.readToken]
    cases Markup.decodeTag content with
    | error fault => exact performs_stop fault d
    | ok tag =>
      obtain ⟨name, attributes⟩ := tag
      have hboth := (performs_call (h := h) (.startElement name attributes) d).andThen
        (performs_call (.endElement name))
      exact hboth.map (fun _ => rfl) fun _ => rfl
  | finish raw =>
    simp only [receiveToken, Standing.readToken]
    cases Name.decode raw with
    | error fault => exact performs_stop (.encoding fault) d
    | ok name =>
      exact (performs_call (.endElement name) d).map (fun _ => rfl) fun _ => rfl

/-- **A byte gives the same to a handler as to a script.** -/
theorem performs_receiveByte (b : UInt8) (d : Delivery σ) :
    Performs h (d.standing.readByte b) d.handler (receiveByte h b d) := by
  have hlexer : d.standing.lexer.feed b = d.lexer.feed b := rfl
  rw [receiveByte, Standing.readByte, hlexer]
  cases d.lexer.feed b with
  | quiet lexer => exact performs_ok { d with lexer }
  | token token lexer => exact performs_receiveToken token { d with lexer }
  | fault position fault => exact performs_stop (.token position fault) d

/-- Steps in a row perform the scripts in a row. -/
theorem performs_each {α : Type} {read : Standing → α → Script Standing}
    {step : α → Delivery σ → Outcome ε (Delivery σ)}
    (hstep : ∀ a d, Performs h (read d.standing a) d.handler (step a d)) (entries : List α)
    (d : Delivery σ) :
    Performs h (entries.foldlM read d.standing) d.handler (Outcome.each step entries d) := by
  induction entries generalizing d with
  | nil => exact performs_ok d
  | cons entry entries ih =>
    rw [List.foldlM_cons, Outcome.each_cons]
    exact (hstep entry d).andThen ih

/-- A refill gives the same to a handler as to a script. -/
theorem performs_receiveRefill (refill : List UInt8) (d : Delivery σ) :
    Performs h (d.standing.readRefill refill) d.handler (receiveRefill h refill d) :=
  (performs_each performs_receiveByte refill d).map (fun _ => rfl) fun _ => rfl

/-- Refills in a row give the same to a handler as to a script. -/
theorem performs_refills (refills : List (List UInt8)) (d : Delivery σ) :
    Performs h (refills.foldlM Standing.readRefill d.standing) d.handler
      (Outcome.each (receiveRefill h) refills d) :=
  performs_each performs_receiveRefill refills d

/-- All that comes before the end of the source gives the same to a handler as to a script. -/
theorem performs_body (source : Source) (s : σ) :
    Performs h source.body s ((call h.startDocument { handler := s }).andThen
      (Outcome.each (receiveRefill h) source.document)) :=
  (performs_call .startDocument { handler := s }).andThen (performs_refills source.document)

/-- The end of a delivery does nothing that the script does not say. -/
theorem map_handler_finish (failure? : Option String) (d : Delivery σ) :
    (finish h failure? d).map Delivery.handler =
      Script.run h (close h) ⟨[], d.standing.finish failure?⟩ d.handler := by
  have hlexer : d.standing.lexer = d.lexer := rfl
  have hpending : d.standing.pending = d.pending := rfl
  rw [Script.run_of_nil rfl, finish, Standing.finish, hlexer, hpending]
  cases failure?.map .sourceFailed <|> d.lexer.finish? with
  | some fault => rfl
  | none =>
    cases d.pending with
    | cons element outer => rfl
    | nil => rfl

end Delivery

/-- **A delivery performs the script of its source.** -/
theorem deliver_eq {ε σ : Type} (h : Handler ε σ) (source : Source) (s : σ) :
    deliver h source s = source.script.run h (Delivery.close h) s := by
  rw [Source.script, Script.run_bind, deliver]
  refine (Delivery.performs_body source s).run _ _ ?_
  intro d
  exact Delivery.map_handler_finish source.failure? d

end IntervalDump
