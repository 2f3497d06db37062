import IntervalDump.Proofs.Delivery.Calls
import IntervalDump.Proofs.Delivery.Script
/-!
# Delivering is recording and replaying

**Theorem** (`deliver_eq_replay_recorded`): a delivery to any handler makes the calls that a replay
of the recorded events makes, leaves the handler where the replay leaves it, and fails as the
replay does, or else as the recording did.

The proof goes through the script of the source. A delivery performs it (`deliver_eq`), and
performing it is replaying the events it delivers (`Script.delivered`), up to what is told
(`Script.state_run_close`, `Script.error?_run_close`). The recorder is the handler for which that
list can be read off its state.
-/

namespace IntervalDump

variable {ε σ : Type}

/-! ## The events of a script -/

namespace Script

/-- Every event that a source gives to a handler that takes them all. -/
def delivered (script : Script Nat) : List Event :=
  match script.result with
  | .error _ => script.events
  | .ok _ => script.events ++ [.endDocument]

/-- What is wrong with the document. -/
def fault? {α : Type} (script : Script α) : Option Markup.Fault :=
  match script.result with
  | .error fault => some fault
  | .ok _ => none

/-- A document with a fault is delivered without its end. -/
theorem delivered_of_error {script : Script Nat} {fault : Markup.Fault}
    (hresult : script.result = .error fault) : script.delivered = script.events := by
  rw [delivered, hresult]

/-- A script with a fault delivers its events and no end of the document. -/
theorem delivered_of_fault? {script : Script Nat} {fault : Markup.Fault}
    (h : script.fault? = some fault) : script.delivered = script.events := by
  unfold fault? at h
  rcases hresult : script.result with earlier | elements <;> rw [hresult] at h <;> cases h
  exact delivered_of_error hresult

/-- A document without a fault is delivered with its end. -/
theorem delivered_of_ok {script : Script Nat} {elements : Nat}
    (hresult : script.result = .ok elements) :
    script.delivered = script.events ++ [.endDocument] := by
  rw [delivered, hresult]

variable (h : Handler ε σ) (script : Script Nat) (s : σ)

/-- The state behind a script is that of a replay. -/
theorem state_run_close :
    (script.run h (Delivery.close h) s).state = (replay h script.delivered s).state := by
  rcases hresult : script.result with fault | elements
  · rw [run_of_error hresult, delivered_of_error hresult, Outcome.state_andThen_fail]
  · rw [run_of_ok hresult, delivered_of_ok hresult, replay_append]
    apply Outcome.state_andThen_congr
    rw [replay_singleton]
    rfl

/-- The handler's failure comes first: it is there before the fault is. -/
theorem error?_run_close :
    (script.run h (Delivery.close h) s).error? =
      (replay h script.delivered s).error?.or (script.fault?.map h.fault) := by
  rcases hresult : script.result with fault | elements
  · rw [run_of_error hresult, delivered_of_error hresult, fault?, hresult,
      Outcome.error?_andThen_fail, Option.map_some]
  · rw [run_of_ok hresult, delivered_of_ok hresult, fault?, hresult, replay_append,
      Option.map_none, Option.or_none]
    apply Outcome.error?_andThen_congr
    rw [replay_singleton]
    rfl

end Script

/-! ## Recording a source -/

/-- The state behind a delivery is that of a replay. -/
theorem state_deliver (h : Handler ε σ) (source : Source) (s : σ) :
    (deliver h source s).state = (replay h source.script.delivered s).state := by
  rw [deliver_eq, Script.state_run_close]

/-- A delivery fails as the replay does, or else for the fault of the document. -/
theorem error?_deliver (h : Handler ε σ) (source : Source) (s : σ) :
    (deliver h source s).error? =
      (replay h source.script.delivered s).error?.or (source.script.fault?.map h.fault) := by
  rw [deliver_eq, Script.error?_run_close]

/-- What is recorded of a document is what it delivers. -/
theorem toList_state_deliver_recorder (source : Source) :
    (deliver Handler.recorder source #[]).state.toList = source.script.delivered := by
  rw [state_deliver, replay_recorder, Outcome.state_ok]
  simp

/-- A recording fails for a fault of the document only. -/
theorem error?_deliver_recorder (source : Source) :
    (deliver Handler.recorder source #[]).error? = source.script.fault? := by
  rw [error?_deliver, replay_recorder, Outcome.error?_ok, Option.none_or]
  exact Option.map_id'

/-- **Delivering a document is recording its events and replaying them.** The calls, the state of
the handler and its failure are those of the replay; if the replay does not fail, the delivery
fails as the recording did. -/
theorem deliver_eq_replay_recorded (h : Handler ε σ) (source : Source) (s : σ) :
    let recording := deliver Handler.recorder source #[]
    let recorded := recording.state.toList
    (deliver h.traced source (s, [])).state = (replay h.traced recorded (s, [])).state ∧
    (deliver h source s).state = (replay h recorded s).state ∧
    (deliver h source s).error? =
      match (replay h recorded s).error? with
      | some error => some error
      | none => recording.error?.map h.fault := by
  intro recording recorded
  have hrecorded : recorded = source.script.delivered := toList_state_deliver_recorder source
  have hfault : recording.error? = source.script.fault? := error?_deliver_recorder source
  rw [hrecorded, hfault]
  refine ⟨state_deliver h.traced source (s, []), state_deliver h source s, ?_⟩
  rw [error?_deliver]
  cases (replay h source.script.delivered s).error? with
  | some error => rfl
  | none => rfl

end IntervalDump
