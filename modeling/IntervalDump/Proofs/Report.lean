import IntervalDump.Proofs.Collector.Replay
import IntervalDump.Proofs.Json.Values
import IntervalDump.Report
/-!
# Reports lose nothing

Both texts of a report are JSON and are read as one value, and this value says what the collector
holds (`Report.Says`, `parse_says`). Numbers without a numeral are read as `null`; where there are
none, the collector has the same begins and series as any other one with this text.
-/

namespace IntervalDump

open Json

namespace Collector

/-- All numbers that the collector holds are finite. -/
structure IsFinite (c : Collector) : Prop where
  begins : ∀ begin ∈ c.begins.toList, begin.isFinite = true
  values : ∀ member ∈ c.series.toList, ∀ snapshot ∈ member.2.toList, ∀ entry ∈ snapshot.toList,
    entry.2.isFinite = true

/-- The attributes that are collected are those that were requested. -/
theorem IsReachable.attributes_eq {c : Collector} (h : c.IsReachable) :
    c.attributes = c.config.attributes.toList := by
  obtain ⟨_, haligned⟩ := h.exists_aligned
  exact haligned.attributes_eq

end Collector

namespace Report

/-! ## What a report says -/

/-- What is read of a number. -/
def numberValue (x : Float) : Value :=
  if x.isFinite then .number x else .null

/-- The keys stand in ascending order, and so each one stands there once. -/
def Ascending (members : List (String × Value)) : Prop :=
  (members.map Prod.fst).Pairwise fun a b => compare a b = .lt

/-- An object of the ids in a snapshot with their values. -/
structure SaysSnapshot (snapshot : Snapshot) (entries : List (String × Value)) : Prop where
  ascending : Ascending entries
  mem_iff : ∀ id value, (id, value) ∈ entries ↔
    ∃ x, snapshot[id]? = some x ∧ value = numberValue x

/-- An array of objects, one for each snapshot. -/
def SaysSeries (snapshots : List Snapshot) (value : Value) : Prop :=
  ∃ items, value = .array (items.map .object) ∧ List.Forall₂ SaysSnapshot snapshots items

/-- The value says what the collector holds. -/
inductive Says (c : Collector) : Value → Prop where
  | intro {members : List (String × Value)} (ascending : Ascending members)
      (keys_eq : members.map Prod.fst = c.config.attributes.toList)
      (series : ∀ name value, (name, value) ∈ members →
        ∃ snapshots, c.get name = .ok snapshots ∧ SaysSeries snapshots value) :
      Says c (.object
        [("interval_begins", .array (c.begins.toList.map numberValue)),
         ("series", .object members)])

/-! ## What is read of a report -/

/-- An array is read item by item. -/
theorem decoded_array (items : List Value) :
    (Value.array items).decoded = .array (items.map Value.decoded) := by
  rw [Value.decoded, Value.decodedItems_eq]

/-- An object is read member by member. -/
theorem decoded_object (members : List (String × Value)) :
    (Value.object members).decoded =
      .object (members.map fun (key, item) => (key, item.decoded)) := by
  rw [Value.decoded, Value.decodedMembers_eq]

/-- The entries that are read of a snapshot. -/
def entries (snapshot : Snapshot) : List (String × Value) :=
  snapshot.toList.map fun (id, x) => (id, numberValue x)

/-- A snapshot is read as its ids with their values. -/
theorem decoded_ofSnapshot (snapshot : Snapshot) :
    (ofSnapshot snapshot).decoded = .object (entries snapshot) := by
  rw [ofSnapshot, decoded_object, List.map_map]
  rfl

/-- A series is read as its snapshots. -/
theorem decoded_ofSeries (series : Series) :
    (ofSeries series).decoded = .array ((series.toList.map entries).map .object) := by
  rw [ofSeries, decoded_array, List.map_map, List.map_map]
  congr 1
  exact List.map_congr_left fun snapshot _ => decoded_ofSnapshot snapshot

/-- The members that are read of the series of a collector. -/
def members (c : Collector) : List (String × Value) :=
  c.series.toList.map fun (name, series) => (name, (ofSeries series).decoded)

/-- A report is read as the begins and the series. -/
theorem decoded_ofCollector (c : Collector) :
    (ofCollector c).decoded = .object
      [("interval_begins", .array (c.begins.toList.map numberValue)),
       ("series", .object (members c))] := by
  rw [ofCollector, decoded_object]
  simp only [List.map_cons, List.map_nil, decoded_array, decoded_object, List.map_map]
  congr 4

/-- A snapshot nests no further. -/
theorem depth_ofSnapshot_le (snapshot : Snapshot) : (ofSnapshot snapshot).depth ≤ 1 := by
  apply Nat.succ_le_succ
  apply Value.depthMembers_le
  intro entry hentry
  obtain ⟨-, -, rfl⟩ := List.mem_map.mp hentry
  exact Nat.le_refl 0

/-- A series nests its snapshots. -/
theorem depth_ofSeries_le (series : Series) : (ofSeries series).depth ≤ 2 := by
  apply Nat.succ_le_succ
  apply Value.depthItems_le
  intro item hitem
  obtain ⟨snapshot, -, rfl⟩ := List.mem_map.mp hitem
  exact depth_ofSnapshot_le snapshot

/-- A report nests its series, and so is read without reaching the limit. -/
theorem depth_ofCollector_le (c : Collector) : (ofCollector c).depth ≤ 4 := by
  apply Nat.succ_le_succ
  apply Value.depthMembers_le
  rw [List.forall_mem_cons, List.forall_mem_singleton]
  constructor
  · apply Nat.succ_le_succ
    apply Value.depthItems_le
    intro item hitem
    obtain ⟨-, -, rfl⟩ := List.mem_map.mp hitem
    exact Nat.zero_le 2
  · apply Nat.succ_le_succ
    apply Value.depthMembers_le
    intro member hmember
    obtain ⟨-, -, rfl⟩ := List.mem_map.mp hmember
    exact depth_ofSeries_le _

/-- The entries that are read of a snapshot say what it holds. -/
theorem saysSnapshot_entries (snapshot : Snapshot) : SaysSnapshot snapshot (entries snapshot) where
  ascending := by
    have hkeys : (entries snapshot).map Prod.fst = snapshot.keys := by
      rw [entries, List.map_map, ← Std.ExtTreeMap.map_fst_toList_eq_keys]
      rfl
    rw [Ascending, hkeys]
    exact Std.ExtTreeMap.ordered_keys
  mem_iff id value := by
    rw [entries, List.mem_map]
    constructor
    · rintro ⟨⟨id, x⟩, hx, h⟩
      obtain ⟨rfl, rfl⟩ := Prod.mk.inj h
      exact ⟨x, Std.ExtTreeMap.mem_toList_iff_getElem?_eq_some.mp hx, rfl⟩
    · rintro ⟨x, hx, rfl⟩
      exact ⟨(id, x), Std.ExtTreeMap.mem_toList_iff_getElem?_eq_some.mpr hx, rfl⟩

/-- What is read of a series says what it holds. -/
theorem saysSeries_decoded (series : Series) :
    SaysSeries series.toList (ofSeries series).decoded := by
  refine ⟨_, decoded_ofSeries series, ?_⟩
  rw [List.forall₂_map_right_iff]
  exact List.forall₂_same.mpr fun snapshot _ => saysSnapshot_entries snapshot

/-- **What is read of a report says what the collector holds.** -/
theorem says_decoded {c : Collector} (hc : c.IsReachable) : Says c (ofCollector c).decoded := by
  have hkeys : (members c).map Prod.fst = c.attributes := by
    rw [members, List.map_map, Collector.attributes, ← Std.ExtTreeMap.map_fst_toList_eq_keys]
    rfl
  rw [decoded_ofCollector]
  refine .intro ?_ (hkeys.trans hc.attributes_eq) ?_
  · rw [Ascending, hkeys]
    exact Std.ExtTreeMap.ordered_keys
  · intro name value hmember
    obtain ⟨⟨name, series⟩, hseries, h⟩ := List.mem_map.mp hmember
    obtain ⟨rfl, rfl⟩ := Prod.mk.inj h
    refine ⟨series.toList, ?_, saysSeries_decoded series⟩
    rw [Collector.get, Std.ExtTreeMap.mem_toList_iff_getElem?_eq_some.mp hseries]

/-! ## Finite numbers -/

/-- Numbers are told apart by their values. -/
theorem number_injective : Function.Injective Value.number :=
  fun _ _ h => Value.number.inj h

/-- Snapshots are told apart by their values. -/
theorem ofSnapshot_injective : Function.Injective ofSnapshot := by
  intro snapshot other h
  apply Std.ExtTreeMap.toList_inj.mp
  have hentry : Function.Injective (Prod.map (id : String → String) Value.number) :=
    Function.injective_id.prodMap number_injective
  exact List.map_injective_iff.mpr hentry (Value.object.inj h)

/-- Series are told apart by their values. -/
theorem ofSeries_injective : Function.Injective ofSeries := by
  intro series other h
  apply Series.ext
  exact List.map_injective_iff.mpr ofSnapshot_injective (Value.array.inj h)

/-- Collectors with the same value have the same begins and series. -/
theorem eq_of_ofCollector_eq {c other : Collector} (h : ofCollector c = ofCollector other) :
    c.begins = other.begins ∧ c.series = other.series := by
  simp only [ofCollector, Value.object.injEq, List.cons.injEq, Prod.mk.injEq, Value.array.injEq,
    true_and, and_true] at h
  obtain ⟨hbegins, hseries⟩ := h
  constructor
  · exact Array.toList_inj.mp (List.map_injective_iff.mpr number_injective hbegins)
  · -- the members of the object are those of the series in the order of their names
    apply Std.ExtTreeMap.toList_inj.mp
    have hmember : Function.Injective (Prod.map (id : String → String) ofSeries) :=
      Function.injective_id.prodMap ofSeries_injective
    exact List.map_injective_iff.mpr hmember hseries

/-- A finite number is read as itself. -/
theorem numberValue_of_isFinite {x : Float} (h : x.isFinite = true) : numberValue x = .number x :=
  if_pos h

/-- Where all numbers are finite, the value is read as it was printed. -/
theorem decoded_of_isFinite {c : Collector} (hc : c.IsFinite) :
    (ofCollector c).decoded = ofCollector c := by
  have hsnapshot {snapshot : Snapshot} (h : ∀ entry ∈ snapshot.toList, entry.2.isFinite = true) :
      (ofSnapshot snapshot).decoded = ofSnapshot snapshot := by
    rw [decoded_ofSnapshot, entries, ofSnapshot]
    congr 1
    apply List.map_congr_left
    intro entry hentry
    simp only [numberValue_of_isFinite (h entry hentry)]
  have hseries : members c = c.series.toList.map fun (name, series) => (name, ofSeries series) := by
    apply List.map_congr_left
    intro member hmember
    simp only [ofSeries, decoded_array, List.map_map]
    congr 2
    apply List.map_congr_left
    intro snapshot hmem
    exact hsnapshot (hc.values member hmember snapshot hmem)
  have hbegins : c.begins.toList.map numberValue = c.begins.toList.map .number :=
    List.map_congr_left fun begin hbegin => numberValue_of_isFinite (hc.begins begin hbegin)
  rw [decoded_ofCollector, hseries, hbegins]
  rfl

/-- **A report loses nothing**: both its texts are JSON and are read as one value, which says what
the collector holds, and collectors with finite numbers that have a text in common hold the same. -/
theorem parse_says {c : Collector} (hc : c.IsReachable) :
    (∀ style, IsJson (render style c).toList) ∧
      (∃ value, Says c value ∧ ∀ style, Value.parse (render style c) = .ok value) ∧
      ∀ (other : Collector) (style style' : Style), c.IsFinite → other.IsFinite →
        render style c = render style' other →
          c.begins = other.begins ∧ c.series = other.series := by
  -- Nothing is asked of a collector to be read back; what it says depends on its history.
  have hparse (c : Collector) (style : Style) :
      Value.parse (render style c) = .ok (ofCollector c).decoded :=
    Value.parse_eq_decoded style (depth_ofCollector_le c |>.trans (by decide))
  refine ⟨fun style => Value.isJson_render style (ofCollector c),
    ⟨_, says_decoded hc, hparse c⟩, ?_⟩
  intro other style style' hfinite hother htext
  have hdecoded := hparse c style
  rw [htext, hparse other style', decoded_of_isFinite hfinite, decoded_of_isFinite hother]
    at hdecoded
  exact eq_of_ofCollector_eq (Except.ok.inj hdecoded).symm

/-- A measurement in the first of two intervals, and a join. -/
def measuredHistory : List Collector.Operation :=
  [.openInterval 0,
   .recordElement .edge "e" [⟨.ofLocal "speed", "13.9"⟩],
   .openInterval 60,
   .join ["density"] .sum]

/-- Whether a document was begun does not stand in the report. -/
theorem parse_says_measured :
    let start := Collector.ofAttributes ["speed", "density"]
    let c := Collector.run measuredHistory start
    let other := Collector.run (.startDocument :: measuredHistory) start
    c.IsReachable ∧ c.IsFinite ∧ other.IsFinite ∧ render .compact c = render .compact other ∧
      (∀ style, IsJson (render style c).toList) ∧
      (∃ value, Says c value ∧ ∀ style, Value.parse (render style c) = .ok value) ∧
      c.begins = other.begins ∧ c.series = other.series := by
  intro start c other
  have hc : c.IsReachable := ⟨start, measuredHistory, .ofAttributes _, rfl⟩
  have hfinite : c.IsFinite := ⟨by decide +kernel, by decide +kernel⟩
  have hother : other.IsFinite := ⟨by decide +kernel, by decide +kernel⟩
  have htext : render .compact c = render .compact other := rfl
  obtain ⟨hjson, hvalue, hinjective⟩ := parse_says hc
  have heq := hinjective other .compact .compact hfinite hother htext
  exact ⟨hc, hfinite, hother, htext, hjson, hvalue, heq⟩

end Report

end IntervalDump
