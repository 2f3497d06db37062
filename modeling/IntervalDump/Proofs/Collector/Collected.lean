import Mathlib.Data.List.Forall2
import IntervalDump.Proofs.Collector.Interval
import IntervalDump.Proofs.Collector.Step
/-!
# What a collector holds behind a dump

The series of a collector are built up in place: the start of an interval appends to all of them,
and the start of an element changes their last snapshots. `Collected` says what they hold without
reference to any order of steps: **one snapshot for each interval of the dump, which tells what the
events of that interval report**. `replay_collected` shows it of every dump that is accepted.

The proof appends one event at a time. `receive_interval` and `receive_takes` say what an accepted
event does to the series, `Collected.receive` that it keeps `Collected`. What an event does to a
collector apart from the series is said by `receive_start` and `receive_other`.
-/

namespace IntervalDump

/-- The collector holds exactly what the events say. -/
structure Collected (config : Config) (events : List Event) (c : Collector) : Prop where
  config_eq : c.config = config
  /-- There is one begin for each start of an interval, the number in its first attribute for it. -/
  begins : List.Forall₂ (fun begin attributes => config.Begins attributes begin)
    c.begins.toList (events.filterMap (Event.interval? config.intervalTag))
  /-- There is one snapshot for each interval, of exactly what is reported in it. -/
  series : ∀ name : String, name ∈ config.attributes → ∃ series, c.series[name]? = some series ∧
    List.Forall₂ (fun snapshot interval => config.Tells name interval.events snapshot)
      series.toList (Interval.all config.intervalTag events)
  /-- There is no other series. -/
  others : ∀ name : String, name ∉ config.attributes → c.series[name]? = none

namespace Collector

/-! ## What an accepted event does -/

/-- An accepted start of an interval has a number where the interval begins, and opens it there. -/
theorem receive_start {e : Event} {c : Collector} {attributes : List Attribute}
    (he : e.interval? c.config.intervalTag = some attributes)
    (hok : (handler.receive e c).error? = none) :
    ∃ begin, c.config.Begins attributes begin ∧
      (handler.receive e c).state =
        { c with
          phase := .parsing
          begins := c.begins.push begin
          series := c.series.map fun _ series => series.extend
          insideInterval := true } ∧
      (handler.receive e c).notices =
        (if c.insideInterval then #[.intervalNested c.config.intervalTag begin] else #[]) ++
          (c.earlierNotice begin).push (.intervalOpened (c.begins.size + 1) begin) := by
  obtain ⟨name, rfl, htag⟩ := Event.exists_of_interval? he
  simp only [Handler.receive, handler, startElement_of_isNamed _ htag, startInterval] at hok ⊢
  split at hok
  · simp at hok
  · next raw hraw =>
    split at hok
    · simp at hok
    · next begin hbegin =>
      have htell := Outcome.error?_tellIf (ε := Error) c.insideInterval
        (.intervalNested c.config.intervalTag begin) { c with insideInterval := true }
      rw [Outcome.error?_andThen_of_ok htell, Outcome.state_tellIf] at hok
      have hphase := phase_ne_of_openInterval hok
      rw [Outcome.state_andThen_of_ok htell, Outcome.notices_andThen_of_ok htell,
        Outcome.state_tellIf, openInterval, if_neg hphase]
      refine ⟨begin, ⟨raw, hraw, hbegin⟩, rfl, ?_⟩
      cases c.insideInterval <;> rfl

/-- An accepted start of an interval appends an empty snapshot to every series. -/
theorem receive_interval {e : Event} {c : Collector} {attributes : List Attribute}
    (he : e.interval? c.config.intervalTag = some attributes)
    (hok : (handler.receive e c).error? = none) :
    let after := (handler.receive e c).state
    after.config = c.config ∧
      (∃ begin, c.config.Begins attributes begin ∧ after.begins = c.begins.push begin) ∧
      ∀ name : String, after.series[name]? = c.series[name]?.map Series.extend := by
  obtain ⟨begin, hbegin, hstate, -⟩ := receive_start he hok
  rw [hstate]
  exact ⟨rfl, ⟨begin, hbegin, rfl⟩, fun name => Std.ExtTreeMap.getElem?_map⟩

/-- The phase that an event leads to if it is the start or the end of a document. -/
def phaseOf? : Event → Option Phase
  | .startDocument => some .parsing
  | .endDocument => some .parsed
  | _ => none

/-- What an event that starts no interval makes of a collector, apart from the series. -/
theorem receive_other {e : Event} {c : Collector} (hphase : c.phase ≠ .reduced)
    (he : e.interval? c.config.intervalTag = none) :
    ∃ series : Std.ExtTreeMap String Series, (handler.receive e c).state =
      { c with
        series
        phase := (phaseOf? e).getD c.phase
        insideInterval := c.insideInterval && !e.endsInterval c.config.intervalTag } := by
  cases e with
  | startDocument =>
    refine ⟨c.series, ?_⟩
    simp [Handler.receive, handler, startDocument, hphase, phaseOf?, Event.endsInterval]
  | endDocument =>
    refine ⟨c.series, ?_⟩
    simp [Handler.receive, handler, endDocument, hphase, phaseOf?, Event.endsInterval]
  | endElement name =>
    refine ⟨c.series, ?_⟩
    cases htag : name.isNamed c.config.intervalTag <;>
      simp [Handler.receive, handler, endElement, htag, phaseOf?, Event.endsInterval]
  | startElement name attributes =>
    have htag : name.isNamed c.config.intervalTag = false := by simpa [Event.interval?] using he
    simp only [Handler.receive, handler, phaseOf?, Event.endsInterval, Option.getD_none,
      Bool.not_false, Bool.and_true]
    rcases hkind : Kind.ofName? name.localName with _ | kind
    · exact ⟨c.series, by rw [startElement_of_other attributes htag hkind, Outcome.state_ok]⟩
    · rw [startElement_of_kind attributes htag hkind]
      exact startMeasured_state attributes kind c

/-- A collector `after` that differs from `before` by what was reported of the attributes: it is
recorded in the latest snapshots. -/
structure Takes (report? : String → Option (String × String)) (before after : Collector) :
    Prop where
  config_eq : after.config = before.config
  begins_eq : after.begins = before.begins
  others : ∀ name : String, before.series[name]? = none → after.series[name]? = none
  quiet : ∀ (name : String) series, before.series[name]? = some series → report? name = none →
    after.series[name]? = some series
  recorded : ∀ (name : String) series id raw, before.series[name]? = some series →
    report? name = some (id, raw) → series.isEmpty = false ∧
      ∃ value, readNumber? raw = some value ∧ after.series[name]? = some (series.record id value)

/-- If nothing is reported of a requested attribute, nothing is recorded. -/
theorem Takes.of_quiet {report? : String → Option (String × String)} {before after : Collector}
    (hconfig : after.config = before.config) (hbegins : after.begins = before.begins)
    (hseries : after.series = before.series)
    (hquiet : ∀ name : String, before.isRequested name = true → report? name = none) :
    Takes report? before after where
  config_eq := hconfig
  begins_eq := hbegins
  others name h := by rw [hseries, h]
  quiet name series h _ := by rw [hseries, h]
  recorded name series id raw h hreport := by
    have hrequested : before.isRequested name = true := by
      rw [isRequested, Std.ExtTreeMap.contains_eq_isSome_getElem?, h]
      rfl
    rw [hquiet name hrequested] at hreport
    contradiction

/-- If none of the attributes is refused, the last one with a local name has the last number under
that name. -/
theorem getLast?_numbers {c : Collector} {name raw : String} {series : Series}
    (hseries : c.series[name]? = some series) {attributes : List Attribute}
    (hnone : ∀ a ∈ attributes, c.refuses a = false)
    (hfind : Attribute.findLast? attributes name = some raw) :
    series.isEmpty = false ∧ ∃ value, readNumber? raw = some value ∧
      (Attribute.numbers name attributes).getLast? = some value := by
  induction attributes using List.reverseRecOn with
  | nil => simp [Attribute.findLast?, Attribute.find?] at hfind
  | append_singleton attributes a ih =>
    rw [Attribute.numbers, List.filterMap_append]
    unfold Attribute.findLast? Attribute.find? at hfind
    rw [List.reverse_concat, List.find?_cons] at hfind
    cases hname : a.name.isNamed name with
    | false =>
      rw [hname] at hfind
      have hlast := ih (fun a' ha' => hnone a' (by simp [ha'])) hfind
      simpa [hname, Attribute.numbers] using hlast
    | true =>
      have hrefuses := hnone a (by simp)
      rw [refuses, beq_iff_eq.1 hname, hseries] at hrefuses
      simp only [Bool.or_eq_false_iff, Option.isNone_eq_false_iff] at hrefuses
      obtain ⟨value, hvalue⟩ := Option.isSome_iff_exists.1 hrefuses.2
      obtain rfl : a.value = raw := by simpa [hname] using hfind
      exact ⟨hrefuses.1, value, hvalue, by simp [hname, hvalue]⟩

/-- Of the attributes before the first refused one, the last value under each name is recorded. -/
theorem each_recordAttribute_takes (kind : Kind) (id : String) (attributes : List Attribute)
    (c : Collector) :
    let recorded := attributes.takeWhile fun a => !c.refuses a
    Takes (fun name => (Attribute.findLast? recorded name).map fun raw => (id, raw)) c
      (Outcome.each (recordAttribute kind id) attributes c).state := by
  intro recorded
  obtain ⟨after, hstate, hlookup, -⟩ := each_recordAttribute kind id attributes c
  replace hlookup (name : String) : after[name]? =
      c.series[name]?.map (Series.recordAll id (Attribute.numbers name recorded)) := hlookup name
  have hnone : ∀ a ∈ recorded, c.refuses a = false := by
    intro a ha
    simpa using List.mem_takeWhile_imp ha
  rw [hstate]
  refine ⟨rfl, rfl, ?_, ?_, ?_⟩
  · intro name h
    show after[name]? = none
    rw [hlookup, h, Option.map_none]
  · intro name series h hquiet
    have hnumbers : Attribute.numbers name recorded = [] := by
      apply Attribute.numbers_eq_nil_of_forall_ne
      intro a ha hname
      rw [Option.map_eq_none_iff, Attribute.findLast?, Attribute.find?, Option.map_eq_none_iff,
        List.find?_eq_none] at hquiet
      exact hquiet a (List.mem_reverse.2 ha) (beq_iff_eq.2 hname)
    show after[name]? = some series
    rw [hlookup, h, hnumbers, Series.recordAll_nil, Option.map_some]
  · intro name series id' raw h hreport
    obtain ⟨_, hfind, hpair⟩ := Option.map_eq_some_iff.1 hreport
    obtain ⟨rfl, rfl⟩ := Prod.mk.inj hpair
    -- of several values for one name, the last one is left in the snapshot
    obtain ⟨hempty, value, hvalue, hlast⟩ := getLast?_numbers h hnone hfind
    refine ⟨hempty, value, hvalue, ?_⟩
    show after[name]? = some (series.record id value)
    rw [hlookup, h, Option.map_some, Series.recordAll_eq, hlast]

/-- An accepted element of a selected kind reports the last value it carries under each name. -/
theorem recordElement_takes {kind : Kind} {id : String} {attributes : List Attribute}
    {c : Collector} (hkind : c.config.kinds.contains kind = true)
    (hok : (recordElement kind id attributes c).error? = none) :
    Takes (fun name => (Attribute.findLast? attributes name).map fun raw => (id, raw)) c
      (recordElement kind id attributes c).state := by
  unfold recordElement at hok ⊢
  by_cases hphase : c.phase = .reduced
  · simp [hphase] at hok
  simp only [hphase, hkind, Bool.not_true, Bool.false_eq_true, if_false] at hok ⊢
  obtain ⟨_, -, -, herror⟩ := each_recordAttribute kind id attributes c
  have htakes := each_recordAttribute_takes kind id attributes c
  have heach := (Outcome.error?_andThen_eq_none.1 hok).1
  have hall : (attributes.takeWhile fun a => !c.refuses a) = attributes :=
    List.takeWhile_eq_self_iff.2 fun a ha => by simp [herror.1 heach a ha]
  rw [hall] at htakes
  rwa [Outcome.state_andThen_of_ok heach, Outcome.state_tell]

/-- The start of an edge or lane, if it is accepted, records what it reports. -/
theorem startMeasured_takes {tag : Name} {kind : Kind}
    (hkind : Kind.ofName? tag.localName = some kind) {attributes : List Attribute} {c : Collector}
    (hok : (startMeasured kind attributes c).error? = none) :
    Takes (fun name => c.config.report? name (.startElement tag attributes)) c
      (startMeasured kind attributes c).state := by
  unfold startMeasured at hok ⊢
  by_cases hany : (attributes.any fun a => c.isRequested a.name.localName) = true
  · simp only [hany, if_true] at hok ⊢
    rcases hid : Attribute.find? attributes c.config.idAttribute with _ | id
    · simp [hid] at hok
    · simp only [hid, Config.report?, hkind] at hok ⊢
      cases hselected : c.config.kinds.contains kind with
      | true => exact recordElement_takes hselected hok
      | false =>
        have hskip : recordElement kind id attributes c = .ok c := by
          unfold recordElement at hok ⊢
          by_cases hphase : c.phase = .reduced
          · simp [hphase] at hok
          · simp [hphase, hselected]
        rw [hskip]
        exact .of_quiet rfl rfl rfl fun _ _ => rfl
  · simp only [hany, if_false, Bool.false_eq_true]
    refine .of_quiet rfl rfl rfl ?_
    intro name hrequested
    have hfind : Attribute.findLast? attributes name = none := by
      rw [Attribute.findLast?, Attribute.find?, Option.map_eq_none_iff, List.find?_eq_none]
      intro a ha hname
      refine hany (List.any_eq_true.2 ⟨a, List.mem_reverse.1 ha, ?_⟩)
      rw [beq_iff_eq.1 hname, hrequested]
    simp only [Config.report?, hkind, hfind, Option.map_none, ite_self]
    split <;> rfl

/-- An accepted event that starts no interval records what it reports. -/
theorem receive_takes {e : Event} {c : Collector} (he : e.interval? c.config.intervalTag = none)
    (hok : (handler.receive e c).error? = none) :
    Takes (fun name => c.config.report? name e) c (handler.receive e c).state := by
  cases e with
  | startDocument =>
    simp only [Handler.receive, handler, startDocument] at hok ⊢
    by_cases hphase : c.phase = .reduced
    · simp [hphase] at hok
    · simp only [hphase, if_false]
      exact .of_quiet rfl rfl rfl fun _ _ => rfl
  | endDocument =>
    simp only [Handler.receive, handler, endDocument, Outcome.state_tell]
    split <;> exact .of_quiet rfl rfl rfl fun _ _ => rfl
  | endElement tag =>
    simp only [Handler.receive, handler, endElement, Outcome.state_ok]
    split <;> exact .of_quiet rfl rfl rfl fun _ _ => rfl
  | startElement tag attributes =>
    have htag : tag.isNamed c.config.intervalTag = false := by simpa [Event.interval?] using he
    simp only [Handler.receive, handler, startElement, htag, Bool.false_eq_true, if_false]
      at hok ⊢
    rcases hkind : Kind.ofName? tag.localName with _ | kind
    · refine .of_quiet rfl rfl rfl ?_
      intro name _
      simp [Config.report?, hkind]
    · simp only [hkind] at hok
      exact startMeasured_takes hkind hok

end Collector

/-! ## What a run of accepted events leads to -/

namespace Collected

/-- A collector that is new has collected what no events give. -/
theorem fresh (config : Config) : Collected config [] (.fresh config) where
  config_eq := rfl
  begins := .nil
  series name hname := ⟨.empty, by rw [Collector.getElem?_series_fresh, if_pos hname], .nil⟩
  others name hname := by rw [Collector.getElem?_series_fresh, if_neg hname]

/-- An accepted event is taken into account, and nothing else is. -/
theorem receive {config : Config} {events : List Event} {c : Collector} {e : Event}
    (h : Collected config events c) (hok : (Collector.handler.receive e c).error? = none) :
    Collected config (events ++ [e]) (Collector.handler.receive e c).state := by
  obtain ⟨rfl, hbegins, hseries, hothers⟩ := h
  rcases he : e.interval? c.config.intervalTag with _ | attributes
  · have htakes := Collector.receive_takes he hok
    refine ⟨htakes.config_eq, ?_, ?_,
      fun name hname => htakes.others name (hothers name hname)⟩
    · rw [htakes.begins_eq, List.filterMap_append]
      simpa [he] using hbegins
    · intro name hname
      obtain ⟨series, hlookup, htells⟩ := hseries name hname
      -- the event belongs to the latest interval, so the lists are compared with the latest one
      -- first
      obtain ⟨latestFirst⟩ := series
      rw [← List.forall₂_reverse_iff, Series.reverse_toList] at htells
      rcases hreport : c.config.report? name e with _ | report
      · refine ⟨⟨latestFirst⟩, htakes.quiet name _ hlookup hreport, ?_⟩
        rw [← List.forall₂_reverse_iff, Series.reverse_toList, Interval.reverse_all_concat, he]
        generalize (Interval.all c.config.intervalTag events).reverse = intervals at htells
        cases htells with
        | nil => exact .nil
        | cons hlast hrest => exact .cons (hlast.quiet hreport) hrest
      · obtain ⟨id, raw⟩ := report
        obtain ⟨hempty, value, hvalue, hafter⟩ := htakes.recorded name _ id raw hlookup hreport
        refine ⟨_, hafter, ?_⟩
        rw [← List.forall₂_reverse_iff, Series.reverse_toList, Interval.reverse_all_concat, he]
        generalize (Interval.all c.config.intervalTag events).reverse = intervals at htells
        cases htells with
        -- something was recorded, so there is an interval to record it in
        | nil => simp [Series.isEmpty] at hempty
        | cons hlast hrest => exact .cons (hlast.report hreport hvalue) hrest
  · obtain ⟨hconfig, ⟨begin, hbegin, hpush⟩, hextend⟩ := Collector.receive_interval he hok
    refine ⟨hconfig, ?_, ?_, ?_⟩
    · rw [hpush, Array.toList_push, List.filterMap_append]
      refine List.rel_append hbegins ?_
      simpa [he] using hbegin
    · intro name hname
      obtain ⟨series, hlookup, htells⟩ := hseries name hname
      refine ⟨series.extend, by rw [hextend, hlookup, Option.map_some], ?_⟩
      rw [← List.forall₂_reverse_iff, Interval.reverse_all_concat, he, Series.toList_extend,
        List.reverse_concat]
      -- a new interval has nothing in it yet
      exact .cons .empty (List.forall₂_reverse_iff.2 htells)
    · intro name hname
      rw [hextend, hothers name hname, Option.map_none]

end Collected

/-- **The meaning of a dump.** A new collector that accepts a list of events, well nested or not,
holds exactly what the events say. -/
theorem replay_collected {config : Config} {c : Collector} (hc : Collector.ofConfig config = .ok c)
    {events : List Event} (hok : (replay Collector.handler events c).error? = none) :
    Collected config events (replay Collector.handler events c).state := by
  obtain ⟨-, rfl⟩ := Collector.eq_fresh_of_ofConfig hc
  induction events using List.reverseRecOn with
  | nil => exact Collected.fresh config
  | append_singleton events e ih =>
    rw [replay_append] at hok ⊢
    obtain ⟨hbefore, hlast⟩ := Outcome.error?_andThen_eq_none.1 hok
    rw [Outcome.state_andThen_of_ok hbefore]
    rw [replay_singleton] at hlast ⊢
    exact (ih hbefore).receive hlast

/-- A dump in which an edge and a lane share an id, one of them carries a value twice, and the last
interval is empty. -/
def sharedIdDump : List Event :=
  [.startDocument,
   .start "interval" [("begin", " 0.5 "), ("begin", "?")],
   .start "edge" [("id", "e"), ("speed", "1"), ("id", "f"), ("speed", "2.5")],
   .start "lane" [("id", "e"), ("speed", "3")],
   .start "interval" [("begin", "10")],
   .endDocument]

/-- The dump is accepted, so a collector for speeds holds what it says. -/
theorem replay_collected_sharedIdDump :
    Collector.ofConfig (.ofAttributes ["speed"]) = .ok (.fresh (.ofAttributes ["speed"])) ∧
      (replay Collector.handler sharedIdDump (.fresh (.ofAttributes ["speed"]))).error? = none ∧
      Collected (.ofAttributes ["speed"]) sharedIdDump
        (replay Collector.handler sharedIdDump (.fresh (.ofAttributes ["speed"]))).state :=
  ⟨rfl, by decide +kernel, replay_collected rfl (by decide +kernel)⟩

end IntervalDump
