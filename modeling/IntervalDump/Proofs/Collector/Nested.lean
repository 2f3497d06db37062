import IntervalDump.Proofs.Collector.Replay
import IntervalDump.Proofs.Delivery.Nesting
/-!
# Intervals inside intervals

An interval that is started inside another one is worth a warning. A collector knows of the
intervals around only whether an interval element was started or ended last. So **the warning is
given for an open interval in which no other one has ended yet** (`replay_nested`); of two intervals
side by side in a third one, only the first is reported (`replay_nested_sideBySide`).

What the mark in the collector says of the events before is an induction over these
(`insideInterval_replay`), with what one event makes of it as its step (`insideInterval_receive`).
-/

namespace IntervalDump

/-! ## Open intervals -/

namespace Config

/-- The end of an interval element is among the events. -/
def EndsInterval (config : Config) (events : List Event) : Prop :=
  ∃ e ∈ events, e.endsInterval config.intervalTag = true

/-- The start of an interval is among the events, and behind it stand the events `after`. -/
def StartsBefore (config : Config) (events : List Event) (name : Name) (after : List Event) :
    Prop :=
  name.isNamed config.intervalTag = true ∧
    ∃ before attributes, events = before ++ .startElement name attributes :: after

/-- An interval was started, and its end is not among the events `after` behind its start. -/
def Open (config : Config) (events after : List Event) : Prop :=
  ∃ name, config.StartsBefore events name after ∧ ¬ Event.IsEnded name after

/-- An interval was started, and no interval element was ended since. -/
def StartedLast (config : Config) (events : List Event) : Prop :=
  ∃ name after, config.StartsBefore events name after ∧ ¬ config.EndsInterval after

/-- Whoever ends an interval ends an interval element. -/
theorem StartsBefore.endsInterval {config : Config} {events after : List Event} {name : Name}
    (h : config.StartsBefore events name after) (hended : Event.IsEnded name after) :
    config.EndsInterval after := by
  obtain ⟨inside, behind, -, rfl⟩ := hended
  exact ⟨.endElement name, by simp, h.1⟩

/-- The interval started last is open. -/
theorem startedLast_iff {config : Config} {events : List Event} :
    config.StartedLast events ↔
      ∃ after, config.Open events after ∧ ¬ config.EndsInterval after := by
  constructor
  · rintro ⟨name, after, hstart, hafter⟩
    exact ⟨after, ⟨name, hstart, mt hstart.endsInterval hafter⟩, hafter⟩
  · rintro ⟨after, ⟨name, hstart, -⟩, hafter⟩
    exact ⟨name, after, hstart, hafter⟩

/-- An interval ends among some events if the first of them ends one or a later one does. -/
theorem endsInterval_cons {config : Config} {e : Event} {events : List Event} :
    config.EndsInterval (e :: events) ↔
      e.endsInterval config.intervalTag = true ∨ config.EndsInterval events := by
  simp [EndsInterval]

/-- An interval is started last if that is so of the later events, or by the first event with no end
behind it. -/
theorem startedLast_cons {config : Config} {e : Event} {events : List Event} :
    config.StartedLast (e :: events) ↔
      (e.interval? config.intervalTag).isSome = true ∧ ¬ config.EndsInterval events ∨
        config.StartedLast events := by
  constructor
  · rintro ⟨name, after, ⟨htag, before, attributes, hsplit⟩, hafter⟩
    cases before with
    | nil =>
      obtain ⟨rfl, rfl⟩ := List.cons.inj hsplit
      exact .inl ⟨by simp [Event.interval?, htag], hafter⟩
    | cons first before =>
      obtain ⟨-, rfl⟩ := List.cons.inj hsplit
      exact .inr ⟨name, after, ⟨htag, before, attributes, rfl⟩, hafter⟩
  · rintro (⟨hinterval, hevents⟩ | ⟨name, after, ⟨htag, before, attributes, rfl⟩, hafter⟩)
    · obtain ⟨attributes, hattributes⟩ := Option.isSome_iff_exists.1 hinterval
      obtain ⟨name, rfl, htag⟩ := Event.exists_of_interval? hattributes
      exact ⟨name, events, ⟨htag, [], attributes, rfl⟩, hevents⟩
    · exact ⟨name, after, ⟨htag, e :: before, attributes, rfl⟩, hafter⟩

end Config

/-! ## The mark in a collector -/

namespace Collector

/-- The start of an interval sets the mark, and the end of one takes it away. -/
theorem insideInterval_receive {e : Event} {c : Collector} (hphase : c.phase ≠ .reduced)
    (hok : (handler.receive e c).error? = none) :
    (handler.receive e c).state.insideInterval = true ↔
      (e.interval? c.config.intervalTag).isSome = true ∨
        c.insideInterval = true ∧ e.endsInterval c.config.intervalTag = false := by
  rcases he : e.interval? c.config.intervalTag with _ | attributes
  · obtain ⟨series, hstate⟩ := receive_other hphase he
    simp [hstate]
  · obtain ⟨begin, -, hstate, -⟩ := receive_start he hok
    simp [hstate]

/-- **One flag is kept of all open intervals**: it is set by any start and cleared by any end. -/
theorem insideInterval_replay {events : List Event} {c : Collector} (hc : c.Unjoined)
    (hok : (replay handler events c).error? = none) :
    (replay handler events c).state.insideInterval = true ↔
      c.insideInterval = true ∧ ¬ c.config.EndsInterval events ∨ c.config.StartedLast events := by
  induction events generalizing c with
  | nil => simp [replay, Config.EndsInterval, Config.StartedLast, Config.StartsBefore]
  | cons e events ih =>
    rw [replay_cons] at hok ⊢
    obtain ⟨he, hevents⟩ := Outcome.error?_andThen_eq_none.1 hok
    rw [Outcome.state_andThen_of_ok he, ih (hc.receive e) hevents,
      insideInterval_receive hc.phase_ne he, config_receive, Config.endsInterval_cons,
      Config.startedLast_cons, not_or, Bool.not_eq_true]
    tauto

/-- The start of an interval gives the warning if the mark is set. -/
theorem receive_warns {e : Event} {attributes : List Attribute} {c : Collector}
    (he : e.interval? c.config.intervalTag = some attributes)
    (hok : (handler.receive e c).error? = none) :
    ∃ begin, c.config.Begins attributes begin ∧
      (.intervalNested c.config.intervalTag begin ∈ (handler.receive e c).notices ↔
        c.insideInterval = true) := by
  obtain ⟨begin, hbegin, -, hnotices⟩ := receive_start he hok
  have hearlier : Notice.intervalNested c.config.intervalTag begin ∉ c.earlierNotice begin := by
    unfold earlierNotice
    split
    · split <;> simp
    · simp
  refine ⟨begin, hbegin, ?_⟩
  rw [hnotices]
  cases c.insideInterval <;> simp [hearlier]

end Collector

/-- **Which intervals are reported as nested**: those that are started inside an open one in which
no interval element has ended yet. So every warning is right; and as long as no interval element
ends inside an open interval, every interval inside another one is reported. -/
theorem replay_nested {config : Config} {c : Collector} (hc : Collector.ofConfig config = .ok c)
    {earlier later : List Event} {name : Name} {attributes : List Attribute}
    (htag : name.isNamed config.intervalTag = true)
    (hok : (replay Collector.handler (earlier ++ .startElement name attributes :: later) c).error? =
      none) :
    ∃ begin, config.Begins attributes begin ∧
      let warning := Notice.intervalNested config.intervalTag begin
      let before := (replay Collector.handler earlier c).state
      let told := (Collector.handler.receive (.startElement name attributes) before).notices
      warning.level = .warn ∧
        warning.text = s!"<{config.intervalTag}> at {Notice.numberText begin} opened before the previous one was closed" ∧
        (warning ∈ told ↔ ∃ after, config.Open earlier after ∧ ¬ config.EndsInterval after) ∧
        ((∀ after, config.Open earlier after → ¬ config.EndsInterval after) →
          (warning ∈ told ↔ ∃ after, config.Open earlier after)) := by
  obtain ⟨-, rfl⟩ := Collector.eq_fresh_of_ofConfig hc
  rw [replay_append] at hok
  obtain ⟨hearlier, hbehind⟩ := Outcome.error?_andThen_eq_none.1 hok
  rw [replay_cons] at hbehind
  have hstart := (Outcome.error?_andThen_eq_none.1 hbehind).1
  have hconfig : (replay Collector.handler earlier (.fresh config)).state.config = config :=
    Collector.config_replay earlier _
  -- a new collector is inside no interval, so the flag says what the events did last
  have hmark : (replay Collector.handler earlier (.fresh config)).state.insideInterval = true ↔
      config.StartedLast earlier := by
    rw [Collector.insideInterval_replay (Collector.unjoined_fresh config) hearlier]
    exact or_iff_right (fun h => Bool.false_ne_true h.1)
  have hinterval : Event.interval? config.intervalTag (.startElement name attributes) =
      some attributes := if_pos htag
  rw [← hconfig] at hinterval
  obtain ⟨begin, hbegin, hwarns⟩ := Collector.receive_warns hinterval hstart
  rw [hmark, hconfig, Config.startedLast_iff] at hwarns
  rw [hconfig] at hbegin
  refine ⟨begin, hbegin, rfl, rfl, hwarns, ?_⟩
  -- where no interval ended behind the open one, the flag and the open interval say the same
  intro hnone
  rw [hwarns]
  constructor
  · rintro ⟨after, hopen, -⟩
    exact ⟨after, hopen⟩
  · rintro ⟨after, hopen⟩
    exact ⟨after, hopen, hnone after hopen⟩

/-- The interval that begins at 1 is inside the one that begins at 0. -/
theorem replay_nested_inside :
    let config := Config.ofAttributes ["speed"]
    let earlier := [.start "interval" [("begin", "0")], .start "edge" [], .finish "edge"]
    let inner := [⟨.ofLocal "begin", "1"⟩]
    let later := [.finish "interval", .finish "interval"]
    let events := earlier ++ .startElement (.ofLocal "interval") inner :: later
    Collector.ofConfig config = .ok (.fresh config) ∧ WellNested events ∧
      (replay Collector.handler events (.fresh config)).error? = none ∧
      ∃ begin, config.Begins inner begin ∧
        let before := (replay Collector.handler earlier (.fresh config)).state
        .intervalNested "interval" begin ∈
          (Collector.handler.receive (.startElement (.ofLocal "interval") inner) before).notices :=
    by
  intro config earlier inner later events
  have hnew : Collector.ofConfig config = .ok (.fresh config) := rfl
  have hok : (replay Collector.handler events (.fresh config)).error? = none := by
    decide +kernel
  have hinside : WellNested [.start "edge" [], .finish "edge",
      .startElement (.ofLocal "interval") inner, .finish "interval"] :=
    .element _ _ .nil (.element _ _ .nil .nil)
  have hopen : ∃ after, config.Open earlier after ∧ ¬ config.EndsInterval after := by
    refine Config.startedLast_iff.1 ⟨.ofLocal "interval", _, ⟨rfl, [], _, rfl⟩, ?_⟩
    unfold Config.EndsInterval
    decide +kernel
  obtain ⟨begin, hbegin, -, -, htold, -⟩ := replay_nested hnew rfl hok
  exact ⟨hnew, .element _ _ hinside .nil, hok, begin, hbegin, htold.2 hopen⟩

/-- **An interval inside another one may not be reported**: the one that begins at 2 is inside the
one that begins at 0, but the one that begins at 1 has ended. -/
theorem replay_nested_sideBySide :
    let config := Config.ofAttributes ["speed"]
    let earlier := [.start "interval" [("begin", "0")], .start "interval" [("begin", "1")],
      .finish "interval"]
    let second := [⟨.ofLocal "begin", "2"⟩]
    let later := [.finish "interval", .finish "interval"]
    let events := earlier ++ .startElement (.ofLocal "interval") second :: later
    Collector.ofConfig config = .ok (.fresh config) ∧ WellNested events ∧
      (replay Collector.handler events (.fresh config)).error? = none ∧
      (∃ after, config.Open earlier after) ∧
      ∃ begin, config.Begins second begin ∧
        let before := (replay Collector.handler earlier (.fresh config)).state
        .intervalNested "interval" begin ∉
          (Collector.handler.receive (.startElement (.ofLocal "interval") second) before).notices :=
    by
  intro config earlier second later events
  have hnew : Collector.ofConfig config = .ok (.fresh config) := rfl
  have hok : (replay Collector.handler events (.fresh config)).error? = none := by
    decide +kernel
  have hinner : WellNested [.start "interval" [("begin", "1")], .finish "interval"] :=
    .element _ _ .nil .nil
  have hinside := hinner.append (.element (.ofLocal "interval") second .nil .nil)
  have hstart : (Collector.handler.receive (.startElement (.ofLocal "interval") second)
      (replay Collector.handler earlier (.fresh config)).state).error? = none := by
    decide +kernel
  obtain ⟨begin, hbegin, hwarns⟩ := Collector.receive_warns rfl hstart
  refine ⟨hnew, .element _ _ hinside .nil, hok, ?_, begin, hbegin, ?_⟩
  · exact ⟨_, .ofLocal "interval", ⟨rfl, [], _, rfl⟩, hinner.not_isEnded _⟩
  · intro before hmem
    have hset : before.insideInterval = true := hwarns.1 hmem
    have hclear : before.insideInterval = false := by decide +kernel
    exact Bool.false_ne_true (hclear.symm.trans hset)

end IntervalDump
