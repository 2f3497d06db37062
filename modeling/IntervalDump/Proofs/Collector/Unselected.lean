import IntervalDump.Proofs.Collector.Refusal
/-!
# Elements of kinds that are not selected

The attributes of an edge or lane are collected if its kind is selected. An element of another kind
leaves no trace (`receive_unselected`), so it can as well be left out of the dump (`replay_select`).

There is one exception. Whether an element has an id is asked before its kind is: **an element that
carries a requested attribute but no id is refused, selected or not** (`receive_lacksId`). Theorem
`replay_unselected` puts both together for whole dumps.
-/

namespace IntervalDump

namespace Config

/-- The start of an edge or lane whose kind is not selected. -/
def isUnselected (config : Config) : Event → Bool
  | .startElement tag _ => (Kind.ofName? tag.localName).any fun kind => !config.kinds.contains kind
  | _ => false

/-- The start of an element that carries a requested attribute but no id. -/
def lacksId (config : Config) : Event → Bool
  | .startElement _ attributes =>
    (attributes.any fun a => config.attributes.contains a.name.localName) &&
      (Attribute.find? attributes config.idAttribute).isNone
  | _ => false

/-- The dump without the elements of unselected kinds. -/
def select (config : Config) (events : List Event) : List Event :=
  events.filter fun e => !config.isUnselected e

/-- Every element of an unselected kind has the id it needs. -/
def Identifies (config : Config) (events : List Event) : Prop :=
  ∀ e ∈ events, config.isUnselected e = true → config.lacksId e = false

/-- An element lacks an id if something is asked of it and it has none. -/
theorem lacksId_iff {config : Config} {tag : Name} {attributes : List Attribute} :
    config.lacksId (.startElement tag attributes) = true ↔
      config.Requests attributes ∧ Attribute.find? attributes config.idAttribute = none := by
  simp only [lacksId, Bool.and_eq_true, List.any_eq_true, Option.isNone_iff_eq_none, Requests,
    Std.ExtTreeSet.contains_iff_mem]

end Config

namespace Collector

section Unselected

variable {c : Collector} (h : c.Unjoined) (hvalid : c.config.fault? = none)

include h hvalid

/-- An element of an unselected kind leaves no trace if it has an id or needs none. -/
theorem receive_unselected {e : Event} (he : c.config.isUnselected e = true)
    (hid : c.config.lacksId e = false) : handler.receive e c = .ok c := by
  cases e with
  | startDocument => simp [Config.isUnselected] at he
  | endDocument => simp [Config.isUnselected] at he
  | endElement tag => simp [Config.isUnselected] at he
  | startElement tag attributes =>
    obtain ⟨kind, hkind, hselected⟩ := (Option.any_eq_true _ _).1 he
    show startElement tag attributes c = _
    rw [startElement_of_kind attributes (Config.isNamed_eq_false_of_kind hvalid hkind) hkind,
      startMeasured]
    split
    · next hany =>
      have hrequests := (h.any_isRequested_iff attributes).1 hany
      rcases hfind : Attribute.find? attributes c.config.idAttribute with _ | id
      · rw [Config.lacksId_iff.2 ⟨hrequests, hfind⟩] at hid
        contradiction
      · simp only [recordElement, h.phase_ne, hselected, if_false, if_true]
    · rfl

/-- The id is asked for whatever the kind. -/
theorem receive_lacksId {tag : Name} {attributes : List Attribute} {kind : Kind}
    (hkind : Kind.ofName? tag.localName = some kind)
    (hid : c.config.lacksId (.startElement tag attributes) = true) :
    handler.receive (.startElement tag attributes) c =
      .fail (.malformed (.elementWithoutId kind c.config.idAttribute)) c := by
  obtain ⟨hrequests, hfind⟩ := Config.lacksId_iff.1 hid
  show startElement tag attributes c = _
  rw [startElement_of_kind attributes (Config.isNamed_eq_false_of_kind hvalid hkind) hkind,
    startMeasured, if_pos ((h.any_isRequested_iff attributes).2 hrequests), hfind]

/-- Elements of unselected kinds can be left out if none of them lacks an id. -/
theorem replay_select {events : List Event} (hid : c.config.Identifies events) :
    replay handler (c.config.select events) c = replay handler events c := by
  induction events generalizing c with
  | nil => rfl
  | cons e events ih =>
    have hrest : c.config.Identifies events := fun e' he' => hid e' (List.mem_cons_of_mem e he')
    cases he : c.config.isUnselected e with
    | true =>
      have hselect : c.config.select (e :: events) = c.config.select events := by
        simp [Config.select, he]
      rw [hselect, ih h hvalid hrest, replay_cons,
        receive_unselected h hvalid he (hid e List.mem_cons_self he), Outcome.andThen_ok]
    | false =>
      have hselect : c.config.select (e :: events) = e :: c.config.select events := by
        simp [Config.select, he]
      rw [hselect, replay_cons, replay_cons]
      apply Outcome.andThen_congr
      have hconfig := config_receive e c
      rw [← hconfig] at hvalid hrest ⊢
      exact ih (h.receive e) hvalid hrest

end Unselected

end Collector

/-- **Elements of unselected kinds are ignored** if they have an id or carry no requested attribute.
An element that carries one and has no id is refused, whatever its kind. -/
theorem replay_unselected {config : Config} {c : Collector}
    (hc : Collector.ofConfig config = .ok c) :
    (∀ events, config.Identifies events →
      replay Collector.handler (config.select events) c = replay Collector.handler events c) ∧
    ∀ earlier tag attributes later kind, config.Identifies earlier →
      Kind.ofName? tag.localName = some kind →
      config.lacksId (.startElement tag attributes) = true →
        replay Collector.handler (earlier ++ .startElement tag attributes :: later) c =
          (replay Collector.handler (config.select earlier) c).andThen
            (Outcome.fail (.malformed (.elementWithoutId kind config.idAttribute))) := by
  obtain ⟨hvalid, rfl⟩ := Collector.eq_fresh_of_ofConfig hc
  have hunjoined := Collector.unjoined_fresh config
  have hselect {events : List Event} (hid : config.Identifies events) :
      replay Collector.handler (config.select events) (.fresh config) =
        replay Collector.handler events (.fresh config) :=
    Collector.replay_select hunjoined hvalid hid
  refine ⟨fun events => hselect, ?_⟩
  intro earlier tag attributes later kind hearlier hkind hid
  rw [hselect hearlier, replay_append]
  apply Outcome.andThen_congr
  have hconfig : (replay Collector.handler earlier (.fresh config)).state.config = config :=
    Collector.config_replay earlier _
  rw [replay_cons, Collector.receive_lacksId (hunjoined.replay earlier) (by rw [hconfig, hvalid])
    hkind (by rwa [hconfig]), hconfig, Outcome.andThen_fail]

/-- A configuration that selects edges alone. -/
def edgeSpeeds : Config :=
  { Config.ofAttributes ["speed"] with kinds := .ofList [.edge] }

/-- A lane with an id is ignored, though it stands before the interval and its speed is not a
number; and the lane without an id behind the interval is not. -/
theorem replay_unselected_edgeSpeeds :
    let events := [.start "lane" [("id", "l"), ("speed", "?")], .start "interval" [("begin", "0")]]
    let speed := [⟨.ofLocal "speed", "1"⟩]
    Collector.ofConfig edgeSpeeds = .ok (.fresh edgeSpeeds) ∧ edgeSpeeds.Identifies events ∧
      edgeSpeeds.select events = [.start "interval" [("begin", "0")]] ∧
      replay Collector.handler (edgeSpeeds.select events) (.fresh edgeSpeeds) =
        replay Collector.handler events (.fresh edgeSpeeds) ∧
      edgeSpeeds.lacksId (.startElement (.ofLocal "lane") speed) = true ∧
      replay Collector.handler (events ++ [.startElement (.ofLocal "lane") speed])
          (.fresh edgeSpeeds) =
        (replay Collector.handler (edgeSpeeds.select events) (.fresh edgeSpeeds)).andThen
          (Outcome.fail (.malformed (.elementWithoutId .lane "id"))) := by
  intro events speed
  have hnew : Collector.ofConfig edgeSpeeds = .ok (.fresh edgeSpeeds) := rfl
  have hunselected := replay_unselected hnew
  have hidentifies : edgeSpeeds.Identifies events := by
    unfold Config.Identifies
    decide +kernel
  have hlacks : edgeSpeeds.lacksId (.startElement (.ofLocal "lane") speed) = true := by
    decide +kernel
  exact ⟨hnew, hidentifies, by decide +kernel, hunselected.1 events hidentifies, hlacks,
    hunselected.2 events _ _ [] .lane hidentifies rfl hlacks⟩

/-- **An element of an unselected kind may make a dump fail**: the dump without the lane is
accepted. -/
theorem replay_unselected_laneWithoutId :
    let events := [.start "interval" [("begin", "0")], .start "lane" [("speed", "1")]]
    Collector.ofConfig edgeSpeeds = .ok (.fresh edgeSpeeds) ∧
      (replay Collector.handler (edgeSpeeds.select events) (.fresh edgeSpeeds)).error? = none ∧
      (replay Collector.handler events (.fresh edgeSpeeds)).error? =
        some (.malformed (.elementWithoutId .lane "id")) :=
  ⟨rfl, by decide +kernel, by decide +kernel⟩

end IntervalDump
