import IntervalDump.Event
import IntervalDump.Markup.Fault
import IntervalDump.Outcome
/-!
# Handlers: who receives events

A handler takes one step of its state for each event, and may fail with errors of its own type
`ε`. Faults of the document become errors of that type too, so a single outcome carries both.
`replay` feeds a handler a list of events; `Handler.recorder` is the handler that keeps every event
it receives.
-/

namespace IntervalDump

/-- What receives the events of a document. -/
structure Handler (ε σ : Type) where
  startDocument : σ → Outcome ε σ
  endDocument : σ → Outcome ε σ
  startElement : Name → List Attribute → σ → Outcome ε σ
  /-- A handler may leave the ends of elements alone. -/
  endElement : Name → σ → Outcome ε σ := fun _ state => .ok state
  /-- A fault of the document, as an error of the handler. -/
  fault : Markup.Fault → ε

namespace Handler

variable {ε σ : Type}

/-- The step for one event. -/
def receive (h : Handler ε σ) : Event → σ → Outcome ε σ
  | .startDocument => h.startDocument
  | .endDocument => h.endDocument
  | .startElement name attributes => h.startElement name attributes
  | .endElement name => h.endElement name

/-- The handler that keeps every event, in order, and never fails. -/
def recorder : Handler Markup.Fault (Array Event) where
  startDocument events := .ok (events.push .startDocument)
  endDocument events := .ok (events.push .endDocument)
  startElement name attributes events := .ok (events.push (.startElement name attributes))
  endElement name events := .ok (events.push (.endElement name))
  fault := id

end Handler

/-- Feeds a handler the events of a list, in order, up to its first failure. -/
def replay {ε σ : Type} (h : Handler ε σ) (events : List Event) (state : σ) : Outcome ε σ :=
  Outcome.each h.receive events state

section Replay

variable {ε σ : Type} (h : Handler ε σ)

/-- Without events, nothing happens. -/
@[simp] theorem replay_nil (s : σ) : replay h [] s = .ok s := rfl

/-- The first event comes first, and the rest only if it did not fail. -/
theorem replay_cons (e : Event) (events : List Event) (s : σ) :
    replay h (e :: events) s = (h.receive e s).andThen (replay h events) :=
  Outcome.each_cons h.receive e events s

/-- To replay one event is to receive it. -/
theorem replay_singleton (e : Event) (s : σ) : replay h [e] s = h.receive e s :=
  Outcome.each_singleton h.receive e s

/-- What is replayed in two parts is replayed in a row. -/
theorem replay_append (first second : List Event) (s : σ) :
    replay h (first ++ second) s = (replay h first s).andThen (replay h second) :=
  Outcome.each_append h.receive first second s

end Replay

/-- The recorder has the events of a replay behind those it had. -/
theorem replay_recorder (events : List Event) (recorded : Array Event) :
    replay Handler.recorder events recorded = .ok (recorded ++ events) := by
  induction events generalizing recorded with
  | nil => rw [replay_nil, Array.appendList_nil]
  | cons e events ih =>
    have hpush : Handler.recorder.receive e recorded = .ok (recorded.push e) := by cases e <;> rfl
    rw [replay_cons, hpush, Outcome.andThen_ok, ih, Array.appendList_cons]

end IntervalDump
