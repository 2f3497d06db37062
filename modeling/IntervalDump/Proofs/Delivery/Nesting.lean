import IntervalDump.Event
/-!
# Well-nested events

* **Well-nested lists** (`WellNested`): every element that starts ends, by its own name, and inside
  the element around it.
* **What a list leaves open** (`Leaves`): the names of the elements that were started and not
  ended, when every end is the end of the innermost open element. This is what a stack of names
  follows while the events come in one by one.
* **Whatever leaves something open can be completed** (`Leaves.wellNested`): the missing ends make
  it well-nested. A list that leaves nothing open is well-nested as it is.
* **The end of a start** (`Event.IsEnded`) is the one that a well-nested list separates from it.
  What a list leaves open are the starts without an end (`Leaves.opens`).

A list is completed from the inside, but read from the front. `Closes` describes the completions
of a stack of names, and `Leaves.wellNested_append` joins both by induction on what was read.
-/

namespace IntervalDump

namespace Event

/-- The event ends an element. -/
def isEnd : Event → Bool
  | .endElement _ => true
  | _ => false

/-- The start or the end of an element. -/
def isElement (e : Event) : Bool :=
  e.isStart || e.isEnd

end Event

/-- Every element is ended, and ended where it was started. -/
inductive WellNested : List Event → Prop
  | nil : WellNested []
  /-- An element, what is in it, and what is behind it. -/
  | element (name : Name) (attributes : List Attribute) {inside behind : List Event} :
      WellNested inside → WellNested behind →
        WellNested (.startElement name attributes :: inside ++ .endElement name :: behind)

/-- Behind the events, the elements with these names are open, the innermost first. -/
inductive Leaves : List Event → List Name → Prop
  | nil : Leaves [] []
  | start (name : Name) (attributes : List Attribute) {events : List Event} {pending : List Name} :
      Leaves events pending → Leaves (events ++ [.startElement name attributes]) (name :: pending)
  | finish {name : Name} {events : List Event} {pending : List Name} :
      Leaves events (name :: pending) → Leaves (events ++ [.endElement name]) pending

/-- The events end the elements with these names, the innermost first. -/
inductive Closes : List Name → List Event → Prop
  | nil {events : List Event} : WellNested events → Closes [] events
  | cons (name : Name) {pending : List Name} {inside behind : List Event} :
      WellNested inside → Closes pending behind →
        Closes (name :: pending) (inside ++ .endElement name :: behind)

namespace Closes

/-- The ends of pending elements, in their order, close them. -/
theorem map_endElement (pending : List Name) : Closes pending (pending.map .endElement) := by
  induction pending with
  | nil => exact .nil .nil
  | cons name pending ih => exact .cons name .nil ih

/-- A whole element may stand before what closes the others. -/
theorem element (name : Name) (attributes : List Attribute) {pending : List Name}
    {inside behind : List Event} (hinside : WellNested inside) (hbehind : Closes pending behind) :
    Closes pending (.startElement name attributes :: inside ++ .endElement name :: behind) := by
  cases hbehind with
  | nil hevents => exact .nil (.element name attributes hinside hevents)
  | cons outer hnext hrest =>
    have hboth := Closes.cons outer (.element name attributes hinside hnext) hrest
    simpa only [List.append_assoc, List.cons_append] using hboth

end Closes

namespace Leaves

variable {events : List Event} {pending : List Name}

/-- What was read and what closes it make a well-nested list. The induction takes the last event
that was read over to what closes the rest. -/
theorem wellNested_append (h : Leaves events pending) :
    ∀ {rest : List Event}, Closes pending rest → WellNested (events ++ rest) := by
  induction h with
  | nil =>
    intro rest hrest
    cases hrest with
    | nil hevents => exact hevents
  | start name attributes _ ih =>
    intro rest hrest
    cases hrest with
    | cons _ hinside hbehind =>
      rw [List.append_assoc]
      exact ih (.element name attributes hinside hbehind)
  | @finish name _ _ _ ih =>
    intro rest hrest
    rw [List.append_assoc]
    exact ih (.cons name .nil hrest)

/-- The missing ends make a list well-nested. -/
theorem wellNested (h : Leaves events pending) :
    WellNested (events ++ pending.map .endElement) :=
  h.wellNested_append (.map_endElement pending)

/-- All of the events are for elements. -/
theorem isElement (h : Leaves events pending) : ∀ e ∈ events, e.isElement := by
  induction h with
  | nil => exact fun e he => absurd he List.not_mem_nil
  | start name attributes _ ih =>
    intro e he
    rcases List.mem_append.mp he with he | he
    · exact ih e he
    · rw [List.mem_singleton.mp he]
      rfl
  | finish _ ih =>
    intro e he
    rcases List.mem_append.mp he with he | he
    · exact ih e he
    · rw [List.mem_singleton.mp he]
      rfl

/-- The end of the document is none of them. -/
theorem endDocument_not_mem (h : Leaves events pending) : .endDocument ∉ events :=
  fun hmem => Bool.false_ne_true (h.isElement _ hmem)

/-- There are as many starts as there are ends and open elements. -/
theorem countP_isStart (h : Leaves events pending) :
    events.countP Event.isStart = events.countP Event.isEnd + pending.length := by
  induction h with
  | nil => rfl
  | start name attributes _ ih =>
    have hstart : [Event.startElement name attributes].countP Event.isStart = 1 := rfl
    have hend : [Event.startElement name attributes].countP Event.isEnd = 0 := rfl
    rw [List.countP_append, List.countP_append, ih, hstart, hend, List.length_cons]
    omega
  | @finish name _ _ _ ih =>
    have hstart : [Event.endElement name].countP Event.isStart = 0 := rfl
    have hend : [Event.endElement name].countP Event.isEnd = 1 := rfl
    rw [List.countP_append, List.countP_append, ih, hstart, hend, List.length_cons]
    omega

end Leaves

/-! ## The end of a start -/

namespace Event

/-- Among the events behind the start of an element with this name is the end of it: what stands
before that end is well-nested. -/
def IsEnded (name : Name) (after : List Event) : Prop :=
  ∃ inside behind, WellNested inside ∧ after = inside ++ .endElement name :: behind

/-- Every start has its end. -/
def AllEnded (events : List Event) : Prop :=
  ∀ before name attributes after, events = before ++ .startElement name attributes :: after →
    IsEnded name after

/-- An end that has come has come for good. -/
theorem IsEnded.append {name : Name} {after : List Event} (h : IsEnded name after)
    (more : List Event) : IsEnded name (after ++ more) := by
  obtain ⟨inside, behind, hinside, rfl⟩ := h
  exact ⟨inside, behind ++ more, hinside, by rw [List.append_assoc, List.cons_append]⟩

/-- Events that start nothing may stand around. -/
theorem AllEnded.cons {events : List Event} (h : AllEnded events) {e : Event}
    (he : e.isStart = false) : AllEnded (e :: events) := by
  intro before name attributes after hsplit
  cases before with
  | nil =>
    obtain ⟨rfl, -⟩ := List.cons.inj hsplit
    cases he
  | cons first before =>
    obtain ⟨-, hsplit⟩ := List.cons.inj hsplit
    exact h before name attributes after hsplit

/-- An event that starts no element leaves none without its end. -/
theorem AllEnded.concat {events : List Event} (h : AllEnded events) {e : Event}
    (he : e.isStart = false) : AllEnded (events ++ [e]) := by
  intro before name attributes after hsplit
  rcases List.eq_nil_or_concat after with rfl | ⟨after, last, rfl⟩
  · obtain ⟨-, hlast⟩ := List.append_inj' hsplit rfl
    obtain ⟨rfl, -⟩ := List.cons.inj hlast
    cases he
  · rw [List.concat_eq_append, ← List.cons_append, ← List.append_assoc] at hsplit
    obtain ⟨hevents, -⟩ := List.append_inj' hsplit rfl
    rw [List.concat_eq_append]
    exact (h before name attributes after hevents).append _

end Event

namespace WellNested

variable {events more : List Event}

/-- Nested events behind nested events are nested. -/
theorem append (h : WellNested events) (hmore : WellNested more) : WellNested (events ++ more) := by
  induction h with
  | nil => exact hmore
  | element name attributes hinside _ _ ihbehind =>
    rw [List.append_assoc, List.cons_append]
    exact .element name attributes hinside ihbehind

/-- **In nested events, every start has its end.** -/
theorem allEnded (h : WellNested events) : Event.AllEnded events := by
  induction h with
  | nil =>
    intro before name attributes after hsplit
    simp at hsplit
  | @element name attributes inside behind hinside _ ihinside ihbehind =>
    intro before name' attributes' after hsplit
    cases before with
    | nil =>
      cases hsplit
      exact ⟨inside, behind, hinside, rfl⟩
    | cons first before =>
      obtain ⟨-, hrest⟩ := List.cons.inj hsplit
      rcases List.append_eq_append_iff.mp hrest with ⟨part, rfl, hbehind⟩ | ⟨part, rfl, hwithin⟩
      · -- the start stands behind the element
        cases part with
        | nil => cases hbehind
        | cons last part =>
          obtain ⟨-, hbehind⟩ := List.cons.inj hbehind
          exact ihbehind part name' attributes' after hbehind
      · cases part with
        | nil => cases hwithin
        | cons first part =>
          obtain ⟨rfl, rfl⟩ := List.cons.inj hwithin
          exact (ihinside before name' attributes' part rfl).append _

/-- **Where an element ends is determined**: what is in it is the only well-nested beginning of the
events behind its start that an end follows. -/
theorem eq_of_append_endElement {inside : List Event} (h : WellNested inside) {name name' : Name}
    {inside' behind behind' : List Event} (h' : WellNested inside')
    (heq : inside ++ .endElement name :: behind = inside' ++ .endElement name' :: behind') :
    inside = inside' := by
  induction h generalizing inside' name name' behind behind' with
  | nil =>
    cases h' with
    | nil => rfl
    | element => cases heq
  | element inner attributes _ _ ihinside ihbehind =>
    cases h' with
    | nil => cases heq
    | element inner' attributes' hinside' hbehind' =>
      simp only [List.append_assoc, List.cons_append, List.cons.injEq] at heq
      obtain ⟨hstart, heq⟩ := heq
      cases hstart
      obtain rfl := ihinside hinside' heq
      obtain ⟨-, heq⟩ := List.cons.inj (List.append_cancel_left heq)
      rw [ihbehind hbehind' heq]

/-- What is well-nested by itself does not end an element around it. -/
theorem not_isEnded (h : WellNested events) (name : Name) : ¬ Event.IsEnded name events := by
  rintro ⟨inside, behind, hinside, rfl⟩
  have heq : inside ++ .endElement name :: (behind ++ [.endElement name]) =
      (inside ++ .endElement name :: behind) ++ .endElement name :: [] := by
    rw [List.append_assoc, List.cons_append]
  have hlength := congrArg List.length (hinside.eq_of_append_endElement h heq)
  simp at hlength

end WellNested

/-- The events start elements with these names, the last one first, and behind each of these starts
up to the next one, and behind the last, are well-nested. -/
inductive Opens : List Name → List Event → Prop
  | nil {events : List Event} : WellNested events → Opens [] events
  | cons (name : Name) (attributes : List Attribute) {outer : List Name}
      {before after : List Event} :
      Opens outer before → WellNested after →
        Opens (name :: outer) (before ++ .startElement name attributes :: after)

/-- Nested events leave open what was open. -/
theorem Opens.append {pending : List Name} {events more : List Event} (h : Opens pending events)
    (hmore : WellNested more) : Opens pending (events ++ more) := by
  cases h with
  | nil hevents => exact .nil (hevents.append hmore)
  | cons name attributes hbefore hafter =>
    rw [List.append_assoc, List.cons_append]
    exact .cons name attributes hbefore (hafter.append hmore)

/-- **What a list leaves open are the starts without an end.** -/
theorem Leaves.opens {events : List Event} {pending : List Name} (h : Leaves events pending) :
    Opens pending events := by
  induction h with
  | nil => exact .nil .nil
  | start name attributes _ ih => exact .cons name attributes ih .nil
  | finish _ ih =>
    cases ih with
    | cons _ attributes hbefore hafter =>
      rw [List.append_assoc]
      exact hbefore.append (.element _ attributes hafter .nil)

end IntervalDump
