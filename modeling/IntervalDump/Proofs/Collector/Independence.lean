import IntervalDump.Proofs.Collector.Refusal
/-!
# Requested attributes do not interfere

What a collector holds of an attribute does not depend on what else was requested. **A collector
that requests less accepts every dump that one with more requests accepts, goes through the same
intervals, and holds the same series of what both request** (`replay_narrowed`).

The two take different branches on the same event: one may skip an element in which the other one
reads values and needs an id. The proof follows both through a dump (`Projects`,
`Projects.receive`). That the one accepts what the other accepts is `Config.Refuses.widen`, and what
an event does to a series that both have is said by its report, which no request has a part in
(`Config.Narrows.report?_eq`).
-/

namespace IntervalDump

/-! ## Configurations that request less -/

namespace Config

/-- Two configurations differ in the requested attributes at most. -/
def Alike (config other : Config) : Prop :=
  config = { other with attributes := config.attributes }

/-- The configuration `narrow` requests no other attributes than `wide` and is otherwise the
same. -/
structure Narrows (narrow wide : Config) : Prop where
  alike : narrow.Alike wide
  subset : ∀ name, name ∈ narrow.attributes → name ∈ wide.attributes

namespace Narrows

variable {narrow wide : Config}

/-- Both look for intervals under the same tag. -/
theorem intervalTag_eq (h : narrow.Narrows wide) : narrow.intervalTag = wide.intervalTag := by
  rw [h.alike]

/-- No fault of a configuration is in its requests. -/
theorem fault?_eq (h : narrow.Narrows wide) : narrow.fault? = wide.fault? := by
  rw [h.alike]
  rfl

/-- Both read the same begin of an interval. -/
theorem begins_iff (h : narrow.Narrows wide) (attributes : List Attribute) (begin : Float) :
    narrow.Begins attributes begin ↔ wide.Begins attributes begin := by
  rw [h.alike]
  rfl

/-- What an event reports of an attribute is the same whether the attribute is requested or not. -/
theorem report?_eq (h : narrow.Narrows wide) : narrow.report? = wide.report? := by
  rw [h.alike]
  rfl

/-- What the narrower configuration asks for, the wider one does too. -/
theorem requests (h : narrow.Narrows wide) {attributes : List Attribute}
    (hrequests : narrow.Requests attributes) : wide.Requests attributes := by
  obtain ⟨a, ha, hname⟩ := hrequests
  exact ⟨a, ha, h.subset _ hname⟩

end Narrows

/-- The configuration with no other request than this one. -/
def only (name : String) (config : Config) : Config :=
  { config with attributes := {name} }

/-- The one name that is left is asked for. -/
theorem mem_attributes_only (name : String) (config : Config) :
    name ∈ (config.only name).attributes := by
  simp [only]

/-- To ask for one name is to ask for less. -/
theorem narrows_only {name : String} {config : Config} (h : name ∈ config.attributes) :
    (config.only name).Narrows config where
  alike := rfl
  subset name' h' := by
    obtain rfl : name = name' := by simpa [only] using h'
    exact h

/-- Configurations that are alike are the same for one name. -/
theorem Alike.only_eq {config other : Config} (h : config.Alike other) (name : String) :
    config.only name = other.only name := by
  rw [h]
  rfl

/-- **Who requests more refuses more**, though maybe for another cause. -/
theorem Refuses.widen {narrow wide : Config} (hnarrow : narrow.Narrows wide) {begun : Prop}
    {e : Event} {cause : Collector.Malformed} (h : narrow.Refuses begun e cause) :
    ∃ cause', wide.Refuses begun e cause' := by
  have heq := hnarrow.alike
  cases h with
  | intervalWithoutBegin htag hbegin =>
    rw [heq] at htag hbegin
    exact ⟨_, .intervalWithoutBegin htag hbegin⟩
  | beginNotANumber htag hbegin hraw =>
    rw [heq] at htag hbegin
    exact ⟨_, .beginNotANumber htag hbegin hraw⟩
  | elementWithoutId hkind hrequests hid =>
    rw [heq] at hid
    exact ⟨_, .elementWithoutId hkind (hnarrow.requests hrequests) hid⟩
  | outsideInterval hkind hselected hrequests hid hbegun =>
    rw [heq] at hselected hid
    exact ⟨_, .outsideInterval hkind hselected (hnarrow.requests hrequests) hid hbegun⟩
  | notANumber hkind hselected hid hbegun hfirst =>
    rw [heq] at hselected hid
    obtain ⟨earlier, later, rfl, -⟩ := hfirst.split
    -- another attribute before this one may be refused, if it is requested only by `wide`
    obtain ⟨b, hb⟩ := exists_firstNotANumber (List.mem_append_right earlier List.mem_cons_self)
      (hnarrow.subset _ hfirst.requested) hfirst.value
    exact ⟨_, .notANumber hkind hselected hid hbegun hb⟩

end Config

namespace Collector

/-! ## Two collectors side by side -/

/-- The collector `narrow` holds what `wide` holds, but only of the attributes that it requests. -/
structure Projects (narrow wide : Collector) : Prop where
  config : narrow.config.Narrows wide.config
  begins_eq : narrow.begins = wide.begins
  phase_eq : narrow.phase = wide.phase
  series_eq : ∀ name : String, name ∈ narrow.config.attributes →
    narrow.series[name]? = wide.series[name]?

namespace Projects

variable {narrow wide : Collector}

/-- New collectors hold nothing of anything. -/
theorem fresh {narrow wide : Config} (h : narrow.Narrows wide) :
    Projects (fresh narrow) (fresh wide) where
  config := h
  begins_eq := rfl
  phase_eq := rfl
  series_eq name hname := by
    replace hname : name ∈ narrow.attributes := hname
    rw [getElem?_series_fresh, getElem?_series_fresh, if_pos hname, if_pos (h.subset name hname)]

/-- What the wider collector accepts, the other one accepts. -/
theorem error?_receive (h : Projects narrow wide) (hnarrow : narrow.Unjoined)
    (hwide : wide.Unjoined) (hvalid : wide.config.fault? = none) {e : Event}
    (hok : (handler.receive e wide).error? = none) :
    (handler.receive e narrow).error? = none := by
  apply Option.eq_none_iff_forall_ne_some.2
  intro error herror
  have hvalid' := h.config.fault?_eq.trans hvalid
  obtain ⟨cause, -, hrefuses⟩ := hnarrow.exists_refuses_of_error?_receive hvalid' herror
  obtain ⟨cause', hrefuses'⟩ := hrefuses.widen h.config
  rw [h.begins_eq] at hrefuses'
  rw [hwide.error?_receive_of_refuses hvalid hrefuses'] at hok
  contradiction

/-- What is reported of an attribute that both request is recorded in the same way by both. -/
theorem takes (h : Projects narrow wide) {e : Event} {after after' : Collector}
    (htakes : Takes (fun name => narrow.config.report? name e) narrow after)
    (htakes' : Takes (fun name => wide.config.report? name e) wide after') {name : String}
    (hname : name ∈ narrow.config.attributes) : after.series[name]? = after'.series[name]? := by
  have hsame := h.series_eq name hname
  rcases hseries : wide.series[name]? with _ | series
  · rw [htakes.others name (hsame.trans hseries), htakes'.others name hseries]
  rw [hseries] at hsame
  rw [h.config.report?_eq] at htakes
  rcases hreport : wide.config.report? name e with _ | ⟨id, raw⟩
  · rw [htakes.quiet name series hsame hreport, htakes'.quiet name series hseries hreport]
  · obtain ⟨-, value, hvalue, hafter⟩ := htakes.recorded name series id raw hsame hreport
    obtain ⟨-, value', hvalue', hafter'⟩ := htakes'.recorded name series id raw hseries hreport
    obtain rfl := Option.some.inj (hvalue.symm.trans hvalue')
    rw [hafter, hafter']

/-- **One event** that the wider collector accepts is accepted by the other one, and does the same
there. -/
theorem receive (h : Projects narrow wide) (hnarrow : narrow.Unjoined) (hwide : wide.Unjoined)
    (hvalid : wide.config.fault? = none) {e : Event}
    (hok : (handler.receive e wide).error? = none) :
    (handler.receive e narrow).error? = none ∧
      Projects (handler.receive e narrow).state (handler.receive e wide).state := by
  have hok' := h.error?_receive hnarrow hwide hvalid hok
  refine ⟨hok', ?_⟩
  have htag := h.config.intervalTag_eq
  -- both collectors see the same tag, so both begin an interval or neither does
  rcases he : e.interval? wide.config.intervalTag with _ | attributes
  · rw [← htag] at he
    obtain ⟨series, hstate⟩ := receive_other hnarrow.phase_ne he
    have htakes := receive_takes he hok'
    rw [htag] at he
    obtain ⟨series', hstate'⟩ := receive_other hwide.phase_ne he
    have htakes' := receive_takes he hok
    refine ⟨?_, ?_, ?_, ?_⟩
    · rw [config_receive, config_receive]
      exact h.config
    · rw [htakes.begins_eq, htakes'.begins_eq, h.begins_eq]
    · rw [hstate, hstate', h.phase_eq]
    · intro name hname
      rw [config_receive] at hname
      exact h.takes htakes htakes' hname
  · obtain ⟨begin, hbegin, hstate, -⟩ := receive_start (by rw [htag, he]) hok'
    obtain ⟨begin', hbegin', hstate', -⟩ := receive_start he hok
    rw [h.config.begins_iff] at hbegin
    obtain rfl := hbegin.unique hbegin'
    rw [hstate, hstate']
    refine ⟨h.config, ?_, rfl, ?_⟩
    · rw [h.begins_eq]
    · intro name hname
      rw [Std.ExtTreeMap.getElem?_map, Std.ExtTreeMap.getElem?_map, h.series_eq name hname]

/-- **All events** of a dump. -/
theorem replay (h : Projects narrow wide) (hnarrow : narrow.Unjoined) (hwide : wide.Unjoined)
    (hvalid : wide.config.fault? = none) {events : List Event}
    (hok : (replay handler events wide).error? = none) :
    (IntervalDump.replay handler events narrow).error? = none ∧
      Projects (IntervalDump.replay handler events narrow).state
        (IntervalDump.replay handler events wide).state := by
  induction events generalizing narrow wide with
  | nil => exact ⟨rfl, h⟩
  | cons e events ih =>
    rw [replay_cons] at hok
    obtain ⟨he, hevents⟩ := Outcome.error?_andThen_eq_none.1 hok
    obtain ⟨he', hafter⟩ := h.receive hnarrow hwide hvalid he
    rw [replay_cons, replay_cons, Outcome.state_andThen_of_ok he, Outcome.state_andThen_of_ok he',
      Outcome.error?_andThen_of_ok he']
    exact ih hafter (hnarrow.receive e) (hwide.receive e) (by rw [config_receive, hvalid]) hevents

/-- There is the same to get of what both request. -/
theorem get (h : Projects narrow wide) (hnarrow : narrow.Unjoined) {name : String}
    (hname : name ∈ narrow.config.attributes) :
    ∃ snapshots, narrow.get name = .ok snapshots ∧ wide.get name = .ok snapshots := by
  obtain ⟨series, hseries⟩ := (hnarrow.mem_attributes_iff name).1 hname
  have hsame := h.series_eq name hname
  rw [hseries] at hsame
  exact ⟨series.toList, by rw [Collector.get, hseries], by rw [Collector.get, ← hsame]⟩

end Projects

/-- What is accepted behind a new collector. -/
theorem replay_projects {narrow wide : Config} (h : narrow.Narrows wide)
    (hvalid : wide.fault? = none) {events : List Event}
    (hok : (replay handler events (fresh wide)).error? = none) :
    (replay handler events (fresh narrow)).error? = none ∧
      Projects (replay handler events (fresh narrow)).state
        (replay handler events (fresh wide)).state ∧
      ∀ name : String, name ∈ narrow.attributes → ∃ snapshots,
        (replay handler events (fresh narrow)).state.get name = .ok snapshots ∧
          (replay handler events (fresh wide)).state.get name = .ok snapshots := by
  have hnew := unjoined_fresh narrow
  obtain ⟨hok', hafter⟩ := (Projects.fresh h).replay hnew (unjoined_fresh wide) hvalid hok
  refine ⟨hok', hafter, ?_⟩
  intro name hname
  apply hafter.get (hnew.replay events)
  rw [config_replay]
  exact hname

end Collector

/-- **Requests do not interfere.** A collector that requests less accepts what the one that requests
more accepts, and goes through the same intervals and phases. What there is to get of an attribute
does not depend on the other requests, whichever they are. -/
theorem replay_narrowed {narrow wide : Config} (hnarrow : narrow.Narrows wide) {c c' : Collector}
    (hc : Collector.ofConfig wide = .ok c) (hc' : Collector.ofConfig narrow = .ok c')
    {events : List Event} (hok : (replay Collector.handler events c).error? = none) :
    let most := (replay Collector.handler events c).state
    let less := replay Collector.handler events c'
    less.error? = none ∧ less.state.begins = most.begins ∧ less.state.phase = most.phase ∧
      (∀ name : String, name ∈ narrow.attributes → ∃ snapshots,
        less.state.get name = .ok snapshots ∧ most.get name = .ok snapshots) ∧
      ∀ (other : Config) (c'' : Collector), other.Alike wide →
        Collector.ofConfig other = .ok c'' →
        (replay Collector.handler events c'').error? = none →
        ∀ name : String, name ∈ wide.attributes → name ∈ other.attributes →
          (replay Collector.handler events c'').state.get name = most.get name := by
  intro most less
  obtain ⟨hvalid, rfl⟩ := Collector.eq_fresh_of_ofConfig hc
  obtain ⟨-, rfl⟩ := Collector.eq_fresh_of_ofConfig hc'
  obtain ⟨hok', hafter, hget⟩ := Collector.replay_projects hnarrow hvalid hok
  refine ⟨hok', hafter.begins_eq, hafter.phase_eq, hget, ?_⟩
  intro other c'' halike hother hok'' name hwide hname
  obtain ⟨hvalid', rfl⟩ := Collector.eq_fresh_of_ofConfig hother
  -- both are compared with a collector that requests nothing but this name
  have hmem := wide.mem_attributes_only name
  have hnarrow' := Config.narrows_only hname
  rw [halike.only_eq] at hnarrow'
  obtain ⟨-, -, hget⟩ := Collector.replay_projects (Config.narrows_only hwide) hvalid hok
  obtain ⟨-, -, hget'⟩ := Collector.replay_projects hnarrow' hvalid' hok''
  obtain ⟨snapshots, hsnapshots, hmost⟩ := hget name hmem
  obtain ⟨snapshots', hsnapshots', hother'⟩ := hget' name hmem
  obtain rfl := Except.ok.inj (hsnapshots.symm.trans hsnapshots')
  exact hother'.trans hmost.symm

/-- Some of these elements carry no speed: an edge that stands outside, a lane with an id, and a
lane without one. -/
def requestedIdDump : List Event :=
  [.startDocument,
   .start "edge" [("name", "outside")],
   .start "interval" [("begin", "0")],
   .start "edge" [("id", "7"), ("speed", "1"), ("speed", "2")],
   .start "lane" [("id", "8")],
   .start "lane" [("name", "nameless")],
   .finish "interval",
   .endDocument]

/-- Who requests the speeds alone skips the lane, whose id the other collector reads as a value. -/
theorem replay_narrowed_requestedIdDump :
    let wide := Config.ofAttributes ["speed", "id"]
    let narrow := Config.ofAttributes ["speed"]
    let c := Collector.fresh wide
    let c' := Collector.fresh narrow
    narrow.Narrows wide ∧ Collector.ofConfig wide = .ok c ∧ Collector.ofConfig narrow = .ok c' ∧
      (replay Collector.handler requestedIdDump c).error? = none ∧
      let most := (replay Collector.handler requestedIdDump c).state
      let less := replay Collector.handler requestedIdDump c'
      less.error? = none ∧ less.state.begins = most.begins ∧ less.state.phase = most.phase ∧
        ∀ name : String, name ∈ narrow.attributes → ∃ snapshots,
          less.state.get name = .ok snapshots ∧ most.get name = .ok snapshots := by
  intro wide narrow c c'
  have hnarrow : narrow.Narrows wide := by
    refine ⟨rfl, ?_⟩
    intro name hname
    simp only [narrow, wide, Config.ofAttributes, Std.ExtTreeSet.mem_ofList] at hname ⊢
    simp_all
  have hwide : Collector.ofConfig wide = .ok c := rfl
  have hless : Collector.ofConfig narrow = .ok c' := rfl
  have hok : (replay Collector.handler requestedIdDump c).error? = none := by
    decide +kernel
  obtain ⟨hok', hbegins, hphase, hget, -⟩ := replay_narrowed hnarrow hwide hless hok
  exact ⟨hnarrow, hwide, hless, hok, hok', hbegins, hphase, hget⟩

end IntervalDump
