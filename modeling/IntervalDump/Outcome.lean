import IntervalDump.Notice
/-!
# Outcomes: steps that keep what they did

A step takes a state to an `Outcome`: the state after it, the notices it gave, and its error if it
failed. A step that fails keeps the part of its effect and the notices that came before the failure.
`Outcome.andThen` goes on with another step unless the first one failed, and `Outcome.each` takes a
step for every entry of a list.
-/

namespace IntervalDump

/-- The state behind a step, the notices that it gave, and its error if it failed. -/
structure Outcome (ε σ : Type) where
  state : σ
  notices : Array Notice
  error? : Option ε

namespace Outcome

variable {ε σ τ α : Type}

/-- The step that does nothing. -/
def ok (state : σ) : Outcome ε σ :=
  ⟨state, #[], none⟩

/-- The step that fails and does nothing. -/
def fail (error : ε) (state : σ) : Outcome ε σ :=
  ⟨state, #[], some error⟩

/-- Gives one notice and changes nothing. -/
def tell (notice : Notice) (state : σ) : Outcome ε σ :=
  ⟨state, #[notice], none⟩

/-- Gives a notice if a condition holds. -/
def tellIf (condition : Bool) (notice : Notice) (state : σ) : Outcome ε σ :=
  if condition then tell notice state else ok state

/-- The outcome of a step on a part of a larger state. -/
def map (f : σ → τ) (o : Outcome ε σ) : Outcome ε τ :=
  ⟨f o.state, o.notices, o.error?⟩

/-- Goes on with `step`, unless there was an error. -/
def andThen (o : Outcome ε σ) (step : σ → Outcome ε σ) : Outcome ε σ :=
  match o.error? with
  | some _ => o
  | none =>
    let next := step o.state
    ⟨next.state, o.notices ++ next.notices, next.error?⟩

/-- Takes `step` for the entries of a list, in order, up to the first failure. -/
def each (step : α → σ → Outcome ε σ) (entries : List α) (state : σ) : Outcome ε σ :=
  entries.foldl (fun o entry => o.andThen (step entry)) (ok state)

/-- The state of an outcome that did not fail. -/
def toExcept (o : Outcome ε σ) : Except ε σ :=
  match o.error? with
  | some error => .error error
  | none => .ok o.state

/-! ## Laws -/

/-- Behind a step that did nothing, the next one is taken as it is. -/
theorem andThen_ok (state : σ) (step : σ → Outcome ε σ) : (ok state).andThen step = step state := by
  simp [andThen, ok]

/-- Behind a failure, no step is taken. -/
theorem andThen_fail (error : ε) (state : σ) (step : σ → Outcome ε σ) :
    (fail error state).andThen step = fail error state := by
  simp [andThen, fail]

/-- An outcome with an error is the last one. -/
theorem andThen_of_error {o : Outcome ε σ} {error : ε} (h : o.error? = some error)
    (step : σ → Outcome ε σ) : o.andThen step = o := by
  simp [andThen, h]

/-- Steps in a row may be bracketed in any way. -/
theorem andThen_assoc (o : Outcome ε σ) (f g : σ → Outcome ε σ) :
    (o.andThen f).andThen g = o.andThen fun s => (f s).andThen g := by
  cases ho : o.error? with
  | some e => simp [andThen, ho]
  | none =>
    cases hf : (f o.state).error? with
    | some e => simp [andThen, ho, hf]
    | none => simp [andThen, ho, hf, Array.append_assoc]

/-- An error stays the last one when the state around it changes. -/
theorem map_andThen_of_error {o : Outcome ε σ} {error : ε} (h : o.error? = some error) (f : σ → τ)
    (step : τ → Outcome ε τ) : (o.map f).andThen step = o.map f := by
  have hmap : (o.map f).error? = some error := h
  exact andThen_of_error hmap step

/-- A step on a larger state, seen on the part `f` puts into it and `g` takes out of it. -/
theorem map_andThen_map {f : σ → τ} {g : τ → σ} (hg : ∀ s, g (f s) = s) (o : Outcome ε σ)
    (step : τ → Outcome ε τ) :
    ((o.map f).andThen step).map g = o.andThen fun s => (step (f s)).map g := by
  cases ho : o.error? with
  | some e =>
    rw [map_andThen_of_error ho, andThen_of_error ho]
    simp [map, hg]
  | none => simp [andThen, map, ho]

/-- Going on behind an outcome is taking the steps from its state, unless it failed. -/
theorem foldl_andThen (step : α → σ → Outcome ε σ) (entries : List α) (o : Outcome ε σ) :
    entries.foldl (fun o entry => o.andThen (step entry)) o = o.andThen (each step entries) := by
  induction entries generalizing o with
  | nil => cases o with | mk s n e => cases e <;> simp [each, andThen, ok]
  | cons entry entries ih =>
    rw [List.foldl_cons, ih, andThen_assoc]
    congr 1
    funext s
    rw [each, List.foldl_cons, andThen_ok, ih]

/-- For no entries, nothing is done. -/
@[simp] theorem each_nil (step : α → σ → Outcome ε σ) (state : σ) :
    each step [] state = ok state := rfl

/-- The first entry comes first, and the rest only if it did not fail. -/
@[simp] theorem each_cons (step : α → σ → Outcome ε σ) (entry : α) (entries : List α) (state : σ) :
    each step (entry :: entries) state = (step entry state).andThen (each step entries) := by
  rw [each, List.foldl_cons, andThen_ok, foldl_andThen]

/-! ## What an outcome holds -/

/-- A step that does nothing leaves the state. -/
@[simp] theorem state_ok (state : σ) : (ok state : Outcome ε σ).state = state := rfl

/-- A step that does nothing does not fail. -/
@[simp] theorem error?_ok (state : σ) : (ok state : Outcome ε σ).error? = none := rfl

/-- A failure leaves the state where it was. -/
@[simp] theorem state_fail (error : ε) (state : σ) : (fail error state).state = state := rfl

/-- A failure has its error. -/
@[simp] theorem error?_fail (error : ε) (state : σ) : (fail error state).error? = some error := rfl

/-- A notice leaves the state. -/
@[simp] theorem state_tell (notice : Notice) (state : σ) :
    (tell notice state : Outcome ε σ).state = state := rfl

/-- Given or not, a notice leaves the state. -/
@[simp] theorem state_tellIf (condition : Bool) (notice : Notice) (state : σ) :
    (tellIf condition notice state : Outcome ε σ).state = state := by
  cases condition <;> rfl

/-- Giving a notice does not fail. -/
@[simp] theorem error?_tellIf (condition : Bool) (notice : Notice) (state : σ) :
    (tellIf condition notice state : Outcome ε σ).error? = none := by
  cases condition <;> rfl

/-- The larger state is made of the state. -/
@[simp] theorem state_map (f : σ → τ) (o : Outcome ε σ) : (o.map f).state = f o.state := rfl

/-- The larger state does not change the error. -/
@[simp] theorem error?_map (f : σ → τ) (o : Outcome ε σ) : (o.map f).error? = o.error? := rfl

/-- Behind a success, the state is that of the next step. -/
theorem state_andThen_of_ok {o : Outcome ε σ} (h : o.error? = none) (step : σ → Outcome ε σ) :
    (o.andThen step).state = (step o.state).state := by
  simp [andThen, h]

/-- Behind a success, the error is that of the next step. -/
theorem error?_andThen_of_ok {o : Outcome ε σ} (h : o.error? = none) (step : σ → Outcome ε σ) :
    (o.andThen step).error? = (step o.state).error? := by
  simp [andThen, h]

/-- Behind a success, the notices of the next step are appended. -/
theorem notices_andThen_of_ok {o : Outcome ε σ} (h : o.error? = none) (step : σ → Outcome ε σ) :
    (o.andThen step).notices = o.notices ++ (step o.state).notices := by
  simp [andThen, h]

/-- Two steps succeed if the first one does and the second one does behind it. -/
theorem error?_andThen_eq_none {o : Outcome ε σ} {step : σ → Outcome ε σ} :
    (o.andThen step).error? = none ↔ o.error? = none ∧ (step o.state).error? = none := by
  cases h : o.error? with
  | none => simp [error?_andThen_of_ok h]
  | some error => simp [andThen_of_error h, h]

/-- Failing behind a step keeps what the step did. -/
@[simp] theorem state_andThen_fail (o : Outcome ε σ) (error : ε) :
    (o.andThen (fail error)).state = o.state := by
  cases h : o.error? with
  | none => rw [state_andThen_of_ok h, state_fail]
  | some earlier => rw [andThen_of_error h]

/-- The failure that comes first is the one that is seen. -/
@[simp] theorem error?_andThen_fail (o : Outcome ε σ) (error : ε) :
    (o.andThen (fail error)).error? = o.error?.or (some error) := by
  cases h : o.error? with
  | none => rw [error?_andThen_of_ok h, error?_fail, Option.none_or]
  | some earlier => rw [andThen_of_error h, h, Option.some_or]

/-- The state depends on what the next step does to the state it gets, and on nothing else. -/
theorem state_andThen_congr {o : Outcome ε σ} {first second : σ → Outcome ε σ}
    (h : (first o.state).state = (second o.state).state) :
    (o.andThen first).state = (o.andThen second).state := by
  cases ho : o.error? with
  | none => rw [state_andThen_of_ok ho, state_andThen_of_ok ho, h]
  | some error => rw [andThen_of_error ho, andThen_of_error ho]

/-- The error depends on what the next step fails with, and on nothing else. -/
theorem error?_andThen_congr {o : Outcome ε σ} {first second : σ → Outcome ε σ}
    (h : (first o.state).error? = (second o.state).error?) :
    (o.andThen first).error? = (o.andThen second).error? := by
  cases ho : o.error? with
  | none => rw [error?_andThen_of_ok ho, error?_andThen_of_ok ho, h]
  | some error => rw [andThen_of_error ho, andThen_of_error ho]

/-- Two steps that do the same where they are taken may be exchanged. -/
theorem andThen_congr {o : Outcome ε σ} {first second : σ → Outcome ε σ}
    (h : first o.state = second o.state) : o.andThen first = o.andThen second := by
  cases ho : o.error? with
  | none => simp only [andThen, ho, h]
  | some error => rw [andThen_of_error ho, andThen_of_error ho]

/-- For one entry, one step is taken. -/
theorem each_singleton (step : α → σ → Outcome ε σ) (entry : α) (state : σ) :
    each step [entry] state = step entry state := by
  rw [each, List.foldl_cons, List.foldl_nil, andThen_ok]

/-- The entries of two lists are gone through one after the other. -/
theorem each_append (step : α → σ → Outcome ε σ) (first second : List α) (state : σ) :
    each step (first ++ second) state = (each step first state).andThen (each step second) := by
  rw [each, List.foldl_append, foldl_andThen]
  rfl

/-- The entries may be converted before the steps or within them. -/
theorem each_map {β : Type} (step : β → σ → Outcome ε σ) (f : α → β) (entries : List α)
    (state : σ) :
    each step (entries.map f) state = each (fun entry => step (f entry)) entries state :=
  List.foldl_map

/-- A run that succeeds takes the first step, and then the others from where it led. -/
theorem each_cons_of_ok {step : α → σ → Outcome ε σ} {entry : α} {entries : List α} {state : σ}
    (h : (each step (entry :: entries) state).error? = none) :
    (step entry state).error? = none ∧ (each step entries (step entry state).state).error? = none ∧
      (each step (entry :: entries) state).state =
        (each step entries (step entry state).state).state := by
  rw [each_cons] at h ⊢
  obtain ⟨hfirst, hrest⟩ := error?_andThen_eq_none.mp h
  exact ⟨hfirst, hrest, state_andThen_of_ok hfirst _⟩

/-- A change of the state that a step goes along with may be made before it or behind it. -/
theorem map_andThen {f : σ → τ} {step : σ → Outcome ε σ} {step' : τ → Outcome ε τ}
    (h : ∀ s, step' (f s) = (step s).map f) (o : Outcome ε σ) :
    (o.map f).andThen step' = (o.andThen step).map f := by
  cases ho : o.error? with
  | some e => rw [map_andThen_of_error ho, andThen_of_error ho]
  | none => simp [andThen, map, ho, h]

/-- Behind a success, the larger state may be made last. -/
theorem andThen_map_of_ok {o : Outcome ε σ} (h : o.error? = none) (step : σ → Outcome ε σ)
    (f : σ → σ) : (o.andThen fun s => (step s).map f) = (o.andThen step).map f := by
  simp [andThen, map, h]

/-- If every step goes the same way on a larger state, then so do all steps together. -/
theorem each_map_state {f : σ → τ} {step : α → σ → Outcome ε σ} {step' : α → τ → Outcome ε τ}
    (h : ∀ entry s, step' entry (f s) = (step entry s).map f) (entries : List α) (state : σ) :
    each step' entries (f state) = (each step entries state).map f := by
  induction entries generalizing state with
  | nil => rfl
  | cons entry entries ih => rw [each_cons, each_cons, h, map_andThen ih]

/-! ## Runs that fail -/

/-- Nothing is done for the entries behind a failure. -/
theorem each_append_of_error {step : α → σ → Outcome ε σ} {first : List α} {state : σ} {error : ε}
    (h : (each step first state).error? = some error) (second : List α) :
    each step (first ++ second) state = each step first state := by
  rw [each_append, andThen_of_error h]

/-- The error of a run behind entries that succeed is the error of the next entry. -/
theorem error?_each_concat {step : α → σ → Outcome ε σ} {first : List α} {state : σ}
    (h : (each step first state).error? = none) (entry : α) :
    (each step (first ++ [entry]) state).error? =
      (step entry (each step first state).state).error? := by
  rw [each_append, error?_andThen_of_ok h, each_singleton]

/-- A run fails with the error of one entry, and succeeds up to it. -/
theorem exists_of_error?_each {step : α → σ → Outcome ε σ} {entries : List α} {state : σ}
    {error : ε} (h : (each step entries state).error? = some error) :
    ∃ earlier entry later, entries = earlier ++ entry :: later ∧
      (each step earlier state).error? = none ∧
      (step entry (each step earlier state).state).error? = some error := by
  induction entries generalizing state with
  | nil => simp at h
  | cons entry entries ih =>
    rw [each_cons] at h
    rcases hentry : (step entry state).error? with _ | error'
    · rw [error?_andThen_of_ok hentry] at h
      obtain ⟨earlier, failing, later, rfl, hearlier, hfailing⟩ := ih h
      refine ⟨entry :: earlier, failing, later, rfl, ?_, ?_⟩
      · rw [each_cons, error?_andThen_of_ok hentry, hearlier]
      · rw [each_cons, state_andThen_of_ok hentry, hfailing]
    · rw [andThen_of_error hentry] at h
      exact ⟨[], entry, entries, rfl, rfl, h⟩

end Outcome

end IntervalDump
