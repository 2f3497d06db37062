import IntervalDump.Collector
/-!
# Qualifiers do not matter

Everything in a dump is recognized by local names, so two dumps that differ only in the qualifiers
of their names are the same to a collector: **it takes the same steps with both, gives the same
notices, and fails at the same place with the same error** (`replay_sameUnqualified`).

A dump without its qualifiers is `events.map Event.unqualified`. No step of a collector looks at
what is left out there (`receive_unqualified`): not the lookups of attributes by name, not the
recording of the requested ones, and not the errors.
-/

namespace IntervalDump

/-! ## Leaving qualifiers out -/

/-- The name without its qualifier. -/
def Name.unqualified (name : Name) : Name :=
  .ofLocal name.localName

/-- The attribute under the unqualified name. -/
def Attribute.unqualified (a : Attribute) : Attribute :=
  ⟨a.name.unqualified, a.value⟩

/-- The event with the unqualified names of its element and its attributes. -/
def Event.unqualified : Event → Event
  | .startDocument => .startDocument
  | .endDocument => .endDocument
  | .startElement name attributes =>
    .startElement name.unqualified (attributes.map Attribute.unqualified)
  | .endElement name => .endElement name.unqualified

/-- A qualifier is no part of the local name. -/
@[simp] theorem Name.localName_unqualified (name : Name) :
    name.unqualified.localName = name.localName := rfl

/-- A tag is recognised by its local name. -/
@[simp] theorem Name.isNamed_unqualified (name : Name) (tag : String) :
    name.unqualified.isNamed tag = name.isNamed tag := rfl

namespace Attribute

/-- The first attribute with a local name is the same one, also if several share that name under
different qualifiers. -/
theorem find?_unqualified (attributes : List Attribute) (localName : String) :
    find? (attributes.map unqualified) localName = find? attributes localName := by
  rw [find?, List.find?_map, Option.map_map]
  rfl

end Attribute

/-! ## Collecting -/

namespace Collector

/-- An attribute is recorded under its local name. -/
theorem recordAttribute_unqualified (kind : Kind) (id : String) (a : Attribute) :
    recordAttribute kind id a.unqualified = recordAttribute kind id a := rfl

/-- All attributes of an element are recorded under their local names. -/
theorem recordElement_unqualified (kind : Kind) (id : String) (attributes : List Attribute) :
    recordElement kind id (attributes.map Attribute.unqualified) =
      recordElement kind id attributes := by
  funext c
  rw [recordElement, recordElement, Outcome.each_map]
  simp only [recordAttribute_unqualified]

/-- The begin of an interval is looked up by its local name. -/
theorem startInterval_unqualified (attributes : List Attribute) :
    startInterval (attributes.map Attribute.unqualified) = startInterval attributes := by
  funext c
  simp only [startInterval, Attribute.find?_unqualified]

/-- The id of an element is looked up by its local name. -/
theorem startMeasured_unqualified (kind : Kind) (attributes : List Attribute) :
    startMeasured kind (attributes.map Attribute.unqualified) = startMeasured kind attributes := by
  funext c
  have hany : ((attributes.map Attribute.unqualified).any fun a => c.isRequested a.name.localName) =
      attributes.any fun a => c.isRequested a.name.localName :=
    List.any_map
  simp only [startMeasured, hany, Attribute.find?_unqualified, recordElement_unqualified]

/-- **No event is taken differently for its qualifiers.** -/
theorem receive_unqualified (e : Event) : handler.receive e.unqualified = handler.receive e := by
  cases e with
  | startDocument => rfl
  | endDocument => rfl
  | endElement tag => rfl
  | startElement tag attributes =>
    funext c
    show startElement tag.unqualified (attributes.map Attribute.unqualified) c =
      startElement tag attributes c
    simp only [startElement, Name.isNamed_unqualified, Name.localName_unqualified,
      startInterval_unqualified, startMeasured_unqualified]

/-- **Events may be replayed without their qualifiers.** -/
theorem replay_unqualified (events : List Event) (c : Collector) :
    replay handler (events.map Event.unqualified) c = replay handler events c := by
  rw [replay, Outcome.each_map]
  simp only [receive_unqualified]
  rfl

/-- **Dumps that differ only in qualifiers are collected alike**, wherever the collector stands:
with the same collector behind them, the same notices, and the same error if there is one. -/
theorem replay_sameUnqualified {first second : List Event}
    (h : first.map Event.unqualified = second.map Event.unqualified) (c : Collector) :
    replay handler first c = replay handler second c := by
  rw [← replay_unqualified first, h, replay_unqualified]

/-- An interval and an edge in it that carries two ids and two speeds, each under both
qualifiers. -/
def twiceQualified (first second : Option String) : List Event :=
  [.startDocument,
   .startElement ⟨first, "interval"⟩ [⟨⟨second, "begin"⟩, "0"⟩],
   .startElement ⟨second, "edge"⟩
     [⟨⟨second, "id"⟩, "e"⟩, ⟨⟨first, "id"⟩, "f"⟩, ⟨⟨first, "speed"⟩, "1"⟩,
      ⟨⟨second, "speed"⟩, "?"⟩],
   .endElement ⟨first, "interval"⟩]

/-- Under any qualifiers it is the second speed and the first id that the error tells of. -/
theorem replay_sameUnqualified_twiceQualified :
    (twiceQualified none (some "m")).map Event.unqualified =
        (twiceQualified (some "x") (some "")).map Event.unqualified ∧
      replay handler (twiceQualified none (some "m")) (ofAttributes ["speed"]) =
        replay handler (twiceQualified (some "x") (some "")) (ofAttributes ["speed"]) ∧
      (replay handler (twiceQualified none (some "m")) (ofAttributes ["speed"])).error? =
        some (.malformed (.notANumber "?" "speed" "e")) :=
  ⟨rfl, replay_sameUnqualified rfl (ofAttributes ["speed"]), by decide +kernel⟩

end Collector

end IntervalDump
