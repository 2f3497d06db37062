import IntervalDump.Event.Handler
/-!
# The calls a handler gets

`Handler.traced` is a handler that keeps a list of the calls it got, the failing one included, and
does everything else as the handler it is made of. `Handler.called` says which events of a list
become calls when the list is replayed.

* **The trace holds what was called** (`replay_traced`), and nothing else changes through it.
* **What was called is what counts** (`replay_called`): the calls are the beginning of the list up
  to the first failure (`called_prefix`, `error?_of_called_eq`), and the events behind them are
  without effect.
-/

namespace IntervalDump

variable {ε σ : Type}

namespace Handler

/-- Takes a step and writes down that it was called. -/
def logging (e : Event) (step : σ → Outcome ε σ) (s : σ × List Event) :
    Outcome ε (σ × List Event) :=
  (step s.1).map fun after => (after, s.2 ++ [e])

/-- The handler that also keeps the calls it got, in order. -/
def traced (h : Handler ε σ) : Handler ε (σ × List Event) where
  startDocument := logging .startDocument h.startDocument
  endDocument := logging .endDocument h.endDocument
  startElement name attributes :=
    logging (.startElement name attributes) (h.startElement name attributes)
  endElement name := logging (.endElement name) (h.endElement name)
  fault := h.fault

/-- A traced handler writes every event down that it receives. -/
theorem receive_traced (h : Handler ε σ) (e : Event) :
    h.traced.receive e = logging e (h.receive e) := by
  cases e <;> rfl

/-- The events of a list that a handler is called with: it is not called behind a failure. -/
def called (h : Handler ε σ) : List Event → σ → List Event
  | [], _ => []
  | e :: events, s =>
    match (h.receive e s).error? with
    | some _ => [e]
    | none => e :: called h events (h.receive e s).state

variable {h : Handler ε σ} {e : Event} {events : List Event} {s : σ}

/-- Of no events, none is called. -/
@[simp] theorem called_nil : h.called [] s = [] := rfl

/-- The event that fails is the last one that is called. -/
theorem called_cons_of_error {error : ε} (herror : (h.receive e s).error? = some error) :
    h.called (e :: events) s = [e] := by
  rw [called, herror]

/-- Behind an event that does not fail, the next one is called. -/
theorem called_cons_of_ok (hok : (h.receive e s).error? = none) :
    h.called (e :: events) s = e :: h.called events (h.receive e s).state := by
  rw [called, hok]

end Handler

/-! ## Replaying a list -/

section Replay

variable (h : Handler ε σ)

/-- The trace of a replay. -/
theorem replay_traced (events : List Event) (s : σ) (calls : List Event) :
    replay h.traced events (s, calls) =
      (replay h events s).map fun after => (after, calls ++ h.called events s) := by
  induction events generalizing s calls with
  | nil =>
    rw [replay_nil, replay_nil, Handler.called_nil, List.append_nil]
    rfl
  | cons e events ih =>
    rw [replay_cons, replay_cons, Handler.receive_traced, Handler.logging]
    rcases hcall : (h.receive e s).error? with _ | error
    · rw [Handler.called_cons_of_ok hcall]
      simp only [Outcome.andThen, Outcome.map, hcall, ih, List.append_assoc, List.cons_append,
        List.nil_append]
    · rw [Outcome.andThen_of_error hcall, Handler.called_cons_of_error hcall]
      exact Outcome.map_andThen_of_error hcall _ _

end Replay

/-! ## What was called -/

namespace Handler

variable (h : Handler ε σ)

/-- The events that are called are the first ones. -/
theorem called_prefix (events : List Event) (s : σ) : h.called events s <+: events := by
  induction events generalizing s with
  | nil => exact List.prefix_rfl
  | cons e events ih =>
    rcases hcall : (h.receive e s).error? with _ | error
    · rw [called_cons_of_ok hcall]
      exact List.prefix_cons_inj e |>.mpr (ih _)
    · rw [called_cons_of_error hcall]
      exact ⟨events, rfl⟩

/-- The first event is always called. -/
theorem exists_called_cons (e : Event) (events : List Event) (s : σ) :
    ∃ part, h.called (e :: events) s = e :: part ∧ part <+: events := by
  rcases hcall : (h.receive e s).error? with _ | error
  · exact ⟨_, called_cons_of_ok hcall, h.called_prefix events _⟩
  · exact ⟨[], called_cons_of_error hcall, List.nil_prefix⟩

/-- The events that were not called do nothing. -/
theorem replay_called (events : List Event) (s : σ) :
    replay h (h.called events s) s = replay h events s := by
  induction events generalizing s with
  | nil => rfl
  | cons e events ih =>
    rcases hcall : (h.receive e s).error? with _ | error
    · rw [called_cons_of_ok hcall, replay_cons, replay_cons]
      simp only [Outcome.andThen, hcall, ih]
    · rw [called_cons_of_error hcall, replay_singleton, replay_cons,
        Outcome.andThen_of_error hcall]

/-- A handler that did not fail was called with everything. -/
theorem called_eq_self {events : List Event} {s : σ} (hok : (replay h events s).error? = none) :
    h.called events s = events := by
  induction events generalizing s with
  | nil => rfl
  | cons e events ih =>
    rw [replay_cons] at hok
    obtain ⟨hcall, hrest⟩ := Outcome.error?_andThen_eq_none.mp hok
    rw [called_cons_of_ok hcall, ih hrest]

/-- Whoever is called has not failed before. -/
theorem error?_of_called_eq {events before after : List Event} {e : Event} {s : σ}
    (hcalled : h.called events s = before ++ e :: after) : (replay h before s).error? = none := by
  induction before generalizing events s with
  | nil => rfl
  | cons first before ih =>
    cases events with
    | nil => simp at hcalled
    | cons e' events =>
      rcases hcall : (h.receive e' s).error? with _ | error
      · rw [called_cons_of_ok hcall, List.cons_append] at hcalled
        obtain ⟨rfl, hrest⟩ := List.cons.inj hcalled
        rw [replay_cons, Outcome.error?_andThen_of_ok hcall]
        exact ih hrest
      · rw [called_cons_of_error hcall] at hcalled
        simp at hcalled

end Handler

end IntervalDump
