import IntervalDump.Proofs.Collector.Collected
import IntervalDump.Proofs.Collector.History
/-!
# What a replay keeps in a collector

Events are operations that join nothing, so a replay keeps what operations keep, whether it fails or
not. Here this is put in terms of one collector and without reference to its history.

* **Unjoined** (`Unjoined`): the series are those of the requested attributes, each with a snapshot
  for every interval. A new collector is unjoined, and stays so in every replay (`Unjoined.replay`).
* **Begun** (`begins_replay_eq_empty_iff`): behind accepted events there is an interval if one of
  them started it, and none otherwise.
-/

namespace IntervalDump

/-- One of the attributes is requested. -/
def Config.Requests (config : Config) (attributes : List Attribute) : Prop :=
  ∃ a ∈ attributes, a.name.localName ∈ config.attributes

/-- The tag of intervals is not the name of a kind. -/
theorem Config.isNamed_eq_false_of_kind {config : Config} (hvalid : config.fault? = none)
    {tag : Name} {kind : Kind} (hkind : Kind.ofName? tag.localName = some kind) :
    tag.isNamed config.intervalTag = false := by
  rw [← Bool.not_eq_true]
  intro htag
  rw [beq_iff_eq.1 htag] at hkind
  simp only [fault?, hkind, Option.isSome_some, if_true] at hvalid
  split_ifs at hvalid

namespace Collector

/-! ## Events as operations -/

/-- The operation that an event asks for. -/
def Operation.ofEvent : Event → Operation
  | .startDocument => .startDocument
  | .endDocument => .endDocument
  | .startElement name attributes => .startElement name attributes
  | .endElement name => .endElement name

/-- Every event is an operation on the collector. -/
theorem apply_ofEvent (e : Event) (c : Collector) :
    (Operation.ofEvent e).apply c = handler.receive e c := by
  cases e <;> rfl

/-- No event joins anything. -/
theorem joined_ofEvent (e : Event) (c : Collector) : (Operation.ofEvent e).joined c = [] := by
  unfold Operation.joined
  split
  · cases e <;> rfl
  · rfl

/-- An event, accepted or not, keeps the configuration and is a step of the shape that joins
nothing. -/
theorem receive_step (e : Event) (c : Collector) :
    (handler.receive e c).state.config = c.config ∧
      c.shape.Step (handler.receive e c).error?.isSome [] (handler.receive e c).state.shape := by
  have hstep := apply_step (Operation.ofEvent e) c
  rwa [apply_ofEvent, joined_ofEvent] at hstep

/-- No event changes the configuration. -/
@[simp] theorem config_receive (e : Event) (c : Collector) :
    (handler.receive e c).state.config = c.config :=
  (receive_step e c).1

/-- What every event keeps, a replay keeps. -/
theorem state_replay {P : Collector → Prop}
    (hreceive : ∀ e c, P c → P (handler.receive e c).state) (events : List Event) {c : Collector}
    (h : P c) : P (replay handler events c).state := by
  induction events generalizing c with
  | nil => exact h
  | cons e events ih =>
    rw [replay_cons]
    rcases he : (handler.receive e c).error? with _ | error
    · rw [Outcome.state_andThen_of_ok he]
      exact ih (hreceive e c h)
    · rw [Outcome.andThen_of_error he]
      exact hreceive e c h

/-- No document changes the configuration. -/
@[simp] theorem config_replay (events : List Event) (c : Collector) :
    (replay handler events c).state.config = c.config := by
  apply state_replay (P := fun after => after.config = c.config)
  · intro e after h
    rw [config_receive, h]
  · rfl

/-! ## Collectors in which nothing was joined -/

/-- A table that is aligned with the configuration holds the requested attributes. -/
theorem Aligned.isRequested_iff {c : Collector} {joined : List String}
    (h : Aligned c.config.attributes joined c.shape) (name : String) :
    c.isRequested name = true ↔ name ∈ c.config.attributes := by
  rw [← h.isSome_iff, isRequested, Std.ExtTreeMap.contains_eq_isSome_getElem?]
  show _ ↔ (c.series[name]?.map Series.length).isSome
  rw [Option.isSome_map]

/-- A collector takes an element as measured if the configuration asks for one of its attributes. -/
theorem Aligned.any_isRequested_iff {c : Collector} {joined : List String}
    (h : Aligned c.config.attributes joined c.shape) (attributes : List Attribute) :
    (attributes.any fun a => c.isRequested a.name.localName) = true ↔
      c.config.Requests attributes := by
  simp only [List.any_eq_true, h.isRequested_iff, Config.Requests]

/-- The names in the table are the requested ones, in their order. -/
theorem Aligned.attributes_eq {c : Collector} {joined : List String}
    (h : Aligned c.config.attributes joined c.shape) :
    c.attributes = c.config.attributes.toList := by
  have hkeys : c.attributes.Nodup := Std.ExtTreeMap.nodup_keys
  have hrequested : c.config.attributes.toList.Nodup :=
    Std.ExtTreeSet.distinct_toList.imp Std.ReflCmp.ne_of_cmp_ne_eq
  have hascending : c.attributes.Pairwise fun a b => compare a b = .lt :=
    Std.ExtTreeMap.ordered_keys
  refine List.Perm.eq_of_pairwise ?_ hascending Std.ExtTreeSet.ordered_toList ?_
  · intro a b _ _ hab hba
    rw [Std.OrientedCmp.gt_of_lt hab] at hba
    contradiction
  · rw [List.perm_ext_iff_of_nodup hkeys hrequested]
    intro name
    rw [attributes, Std.ExtTreeMap.mem_keys, Std.ExtTreeSet.mem_toList, ← h.isRequested_iff,
      isRequested, Std.ExtTreeMap.contains_iff_mem]

/-- Nothing was joined: each requested attribute, and no other one, has a series, with a snapshot
for every interval. -/
def Unjoined (c : Collector) : Prop :=
  Aligned c.config.attributes [] c.shape

/-- A collector that is new has joined nothing. -/
theorem unjoined_fresh (config : Config) : (fresh config).Unjoined :=
  aligned_fresh config

namespace Unjoined

variable {c : Collector}

/-- What has joined nothing is not reduced. -/
theorem phase_ne (h : c.Unjoined) : c.phase ≠ .reduced := by
  intro hphase
  exact h.reduced_iff.1 hphase rfl

/-- There is a series for each attribute that was asked for. -/
theorem mem_attributes_iff (h : c.Unjoined) (name : String) :
    name ∈ c.config.attributes ↔ ∃ series, c.series[name]? = some series := by
  rw [← h.isRequested_iff, isRequested, Std.ExtTreeMap.contains_eq_isSome_getElem?,
    Option.isSome_iff_exists]

/-- There is no series for a name that was not asked for. -/
theorem getElem?_eq_none (h : c.Unjoined) {name : String} (hname : name ∉ c.config.attributes) :
    c.series[name]? = none := by
  apply Option.eq_none_iff_forall_ne_some.2
  intro series hseries
  exact hname ((h.mem_attributes_iff name).2 ⟨series, hseries⟩)

/-- A series is empty as long as no interval was begun. -/
theorem isEmpty_iff (h : c.Unjoined) {name : String} {series : Series}
    (hseries : c.series[name]? = some series) : series.isEmpty = true ↔ c.begins = #[] := by
  have hlength : c.shape.length? name = some series.length := by
    show c.series[name]?.map Series.length = _
    rw [hseries, Option.map_some]
  have heq : series.length = c.begins.size := by simpa using h.length_eq name _ hlength
  rw [Series.isEmpty_eq_true, heq, Array.size_eq_zero_iff]

/-- An event joins nothing. -/
theorem receive (h : c.Unjoined) (e : Event) : (handler.receive e c).state.Unjoined := by
  obtain ⟨hconfig, hstep⟩ := receive_step e c
  unfold Unjoined
  rw [hconfig]
  exact Aligned.step h hstep

/-- A document joins nothing. -/
theorem replay (h : c.Unjoined) (events : List Event) :
    (replay handler events c).state.Unjoined :=
  state_replay (fun e _ hc => hc.receive e) events h

end Unjoined

/-! ## Intervals in a replay -/

/-- An accepted event leaves no interval if there was none and it starts none. -/
theorem begins_receive_eq_empty_iff {e : Event} {c : Collector}
    (hok : (handler.receive e c).error? = none) :
    (handler.receive e c).state.begins = #[] ↔
      c.begins = #[] ∧ e.interval? c.config.intervalTag = none := by
  rcases he : e.interval? c.config.intervalTag with _ | attributes
  · rw [(receive_takes he hok).begins_eq]
    simp
  · obtain ⟨-, ⟨begin, -, hpush⟩, -⟩ := receive_interval he hok
    rw [hpush]
    simp

/-- Behind a document there is an interval if there was one before or the document has one. -/
theorem begins_replay_eq_empty_iff {events : List Event} {c : Collector}
    (hok : (IntervalDump.replay handler events c).error? = none) :
    (IntervalDump.replay handler events c).state.begins = #[] ↔
      c.begins = #[] ∧ ∀ e ∈ events, e.interval? c.config.intervalTag = none := by
  induction events generalizing c with
  | nil => simp
  | cons e events ih =>
    rw [replay_cons] at hok ⊢
    obtain ⟨he, hevents⟩ := Outcome.error?_andThen_eq_none.1 hok
    rw [Outcome.state_andThen_of_ok he, ih hevents, begins_receive_eq_empty_iff he, config_receive,
      List.forall_mem_cons, and_assoc]

end Collector

end IntervalDump
