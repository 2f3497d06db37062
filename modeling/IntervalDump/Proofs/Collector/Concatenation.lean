import IntervalDump.Proofs.Collector.Refusal
/-!
# Dumps read one after the other

A collector may be given a second dump behind the first one. **What it holds then is what the first
dump alone and the second dump alone would have given it, one behind the other**
(`replay_concatenates`): a dump that is accepted by itself records nothing before its own first
interval, so nothing of it gets into the last interval of the dump before.

The proof follows two collectors through the second dump, a new one and the one that has read the
first dump (`Continues`, `Continues.receive`). That the latter accepts what the former accepts is
`Unjoined.error?_receive_of_accepted`.
-/

namespace IntervalDump

namespace Series

/-- The snapshots of one series and behind them those of another one. -/
def append (earlier later : Series) : Series :=
  ⟨later.latestFirst ++ earlier.latestFirst⟩

/-- The snapshots of the later series stand behind those of the earlier one. -/
@[simp] theorem toList_append (earlier later : Series) :
    (earlier.append later).toList = earlier.toList ++ later.toList := by
  simp [append, toList]

/-- An empty series adds nothing. -/
@[simp] theorem append_empty (series : Series) : series.append empty = series := rfl

/-- A new interval begins behind both. -/
theorem extend_append (earlier later : Series) :
    (earlier.append later).extend = earlier.append later.extend := rfl

/-- A value gets into the series behind, if there is a snapshot in it. -/
theorem record_append {later : Series} (h : later.isEmpty = false) (earlier : Series) (id : String)
    (value : Float) :
    (earlier.append later).record id value = earlier.append (later.record id value) := by
  obtain ⟨latestFirst⟩ := later
  cases latestFirst with
  | nil => simp [isEmpty] at h
  | cons latest before => rfl

end Series

namespace Collector

/-- The collector `both` holds what `c` holds, behind what `first` holds. -/
structure Continues (first c both : Collector) : Prop where
  config_eq : both.config = c.config
  begins_eq : both.begins = first.begins ++ c.begins
  series_eq : ∀ name : String, both.series[name]? =
    c.series[name]?.map (first.series[name]?.getD .empty).append

namespace Continues

variable {first c both : Collector}

/-- Before anything else is read. -/
theorem start (h : first.Unjoined) : Continues first (fresh first.config) first where
  config_eq := rfl
  begins_eq := by simp [fresh]
  series_eq name := by
    rw [getElem?_series_fresh]
    by_cases hname : name ∈ first.config.attributes
    · obtain ⟨series, hseries⟩ := (h.mem_attributes_iff name).1 hname
      simp [hname, hseries]
    · simp [hname, h.getElem?_eq_none hname]

/-- What is reported within an interval of `c` is recorded in the same way by `both`. -/
theorem takes (h : Continues first c both) {report? : String → Option (String × String)}
    {after after' : Collector} (htakes : Takes report? c after)
    (htakes' : Takes report? both after') : Continues first after after' where
  config_eq := by rw [htakes'.config_eq, h.config_eq, htakes.config_eq]
  begins_eq := by rw [htakes'.begins_eq, h.begins_eq, htakes.begins_eq]
  series_eq name := by
    have hboth := h.series_eq name
    rcases hc : c.series[name]? with _ | later
    · rw [hc, Option.map_none] at hboth
      rw [htakes.others name hc, htakes'.others name hboth, Option.map_none]
    · rw [hc, Option.map_some] at hboth
      rcases hreport : report? name with _ | ⟨id, raw⟩
      · rw [htakes.quiet name later hc hreport, htakes'.quiet name _ hboth hreport,
          Option.map_some]
      · obtain ⟨hempty, value, hvalue, hafter⟩ := htakes.recorded name later id raw hc hreport
        obtain ⟨-, value', hvalue', hafter'⟩ := htakes'.recorded name _ id raw hboth hreport
        obtain rfl := Option.some.inj (hvalue.symm.trans hvalue')
        rw [hafter, hafter', Option.map_some, Series.record_append hempty]

/-- **One event** of the second dump, if it is accepted by itself, is accepted behind the first dump
too, and does the same there. -/
theorem receive (h : Continues first c both) (hc : c.Unjoined) (hboth : both.Unjoined)
    (hvalid : c.config.fault? = none) {e : Event} (hok : (handler.receive e c).error? = none) :
    (handler.receive e both).error? = none ∧
      Continues first (handler.receive e c).state (handler.receive e both).state := by
  have hbegun : c.begins ≠ #[] → both.begins ≠ #[] := by
    intro hne hempty
    rw [h.begins_eq, Array.append_eq_empty_iff] at hempty
    exact hne hempty.2
  have hok' := hc.error?_receive_of_accepted hboth h.config_eq hbegun hvalid hok
  refine ⟨hok', ?_⟩
  rcases he : e.interval? c.config.intervalTag with _ | attributes
  · have htakes' := receive_takes (by rw [h.config_eq, he]) hok'
    rw [h.config_eq] at htakes'
    exact h.takes (receive_takes he hok) htakes'
  · obtain ⟨hconfig, ⟨begin, hbegin, hpush⟩, hextend⟩ := receive_interval he hok
    obtain ⟨hconfig', ⟨begin', hbegin', hpush'⟩, hextend'⟩ :=
      receive_interval (by rw [h.config_eq, he]) hok'
    rw [h.config_eq] at hbegin'
    obtain rfl := hbegin.unique hbegin'
    refine ⟨by rw [hconfig', h.config_eq, hconfig], ?_, ?_⟩
    · rw [hpush', hpush, h.begins_eq, Array.push_append]
    · intro name
      rw [hextend', hextend, h.series_eq, Option.map_map, Option.map_map]
      simp only [Function.comp_def, Series.extend_append]

/-- **All events** of the second dump. -/
theorem replay (h : Continues first c both) (hc : c.Unjoined) (hboth : both.Unjoined)
    (hvalid : c.config.fault? = none) {events : List Event}
    (hok : (replay handler events c).error? = none) :
    (IntervalDump.replay handler events both).error? = none ∧
      Continues first (IntervalDump.replay handler events c).state
        (IntervalDump.replay handler events both).state := by
  induction events generalizing c both with
  | nil => exact ⟨rfl, h⟩
  | cons e events ih =>
    rw [replay_cons] at hok ⊢
    obtain ⟨he, hevents⟩ := Outcome.error?_andThen_eq_none.1 hok
    obtain ⟨he', hafter⟩ := h.receive hc hboth hvalid he
    rw [replay_cons, Outcome.state_andThen_of_ok he, Outcome.state_andThen_of_ok he',
      Outcome.error?_andThen_of_ok he']
    exact ih hafter (hc.receive e) (hboth.receive e) (by rw [config_receive, hvalid]) hevents

/-- What is got of an attribute is the one list of snapshots behind the other. -/
theorem get (h : Continues first c both) {name : String} {earlier later : Series}
    (hearlier : first.series[name]? = some earlier) (hlater : c.series[name]? = some later) :
    first.get name = .ok earlier.toList ∧ c.get name = .ok later.toList ∧
      both.get name = .ok (earlier.toList ++ later.toList) := by
  have hboth := h.series_eq name
  rw [hlater, hearlier, Option.map_some, Option.getD_some] at hboth
  simp only [Collector.get, hearlier, hlater, hboth, Series.toList_append, and_self]

end Continues

end Collector

/-- **Two dumps, one after the other.** If a new collector accepts each of them, it accepts the
second one behind the first one, and has the intervals and snapshots of both, in this order. -/
theorem replay_concatenates {config : Config} {c : Collector}
    (hc : Collector.ofConfig config = .ok c) {first second : List Event}
    (hfirst : (replay Collector.handler first c).error? = none)
    (hsecond : (replay Collector.handler second c).error? = none) :
    let one := (replay Collector.handler first c).state
    let other := (replay Collector.handler second c).state
    let both := replay Collector.handler second one
    both.error? = none ∧ both.state.begins = one.begins ++ other.begins ∧
      ∀ name : String, name ∈ config.attributes → ∃ earlier later, one.get name = .ok earlier ∧
        other.get name = .ok later ∧ both.state.get name = .ok (earlier ++ later) := by
  obtain ⟨hvalid, rfl⟩ := Collector.eq_fresh_of_ofConfig hc
  intro one other both
  have hnew := Collector.unjoined_fresh config
  have hone : one.Unjoined := hnew.replay first
  have hconfig : one.config = config := Collector.config_replay first _
  have hstart := Collector.Continues.start hone
  rw [hconfig] at hstart
  obtain ⟨hok, hboth⟩ := hstart.replay hnew hone hvalid hsecond
  refine ⟨hok, hboth.begins_eq, ?_⟩
  intro name hname
  obtain ⟨earlier, hearlier⟩ := (hone.mem_attributes_iff name).1 (by rwa [hconfig])
  have hother : other.Unjoined := hnew.replay second
  have hconfig' : other.config = config := Collector.config_replay second _
  obtain ⟨later, hlater⟩ := (hother.mem_attributes_iff name).1 (by rwa [hconfig'])
  exact ⟨_, _, hboth.get hearlier hlater⟩

/-- A dump of an empty interval and one that measures an edge and a lane. -/
def twoIntervalDump : List Event :=
  [.startDocument,
   .start "interval" [("begin", "0")],
   .finish "interval",
   .start "interval" [("begin", "5")],
   .start "edge" [("id", "e"), ("speed", "1")],
   .start "lane" [("id", "l"), ("speed", "2")],
   .finish "interval",
   .endDocument]

/-- The dump before it ends with an interval that is still open. -/
theorem replay_concatenates_twoIntervalDump :
    let config := Config.ofAttributes ["speed"]
    let c := Collector.fresh config
    let first := [.start "interval" [("begin", "9")], .start "edge" [("id", "e"), ("speed", "3")]]
    Collector.ofConfig config = .ok c ∧ (replay Collector.handler first c).error? = none ∧
      (replay Collector.handler twoIntervalDump c).error? = none ∧
      let one := (replay Collector.handler first c).state
      let other := (replay Collector.handler twoIntervalDump c).state
      let both := replay Collector.handler twoIntervalDump one
      both.error? = none ∧ both.state.begins = one.begins ++ other.begins ∧
        ∀ name : String, name ∈ config.attributes → ∃ earlier later, one.get name = .ok earlier ∧
          other.get name = .ok later ∧ both.state.get name = .ok (earlier ++ later) := by
  intro config c first
  have hnew : Collector.ofConfig config = .ok c := rfl
  have hfirst : (replay Collector.handler first c).error? = none := by
    decide +kernel
  have hsecond : (replay Collector.handler twoIntervalDump c).error? = none := by
    decide +kernel
  exact ⟨hnew, hfirst, hsecond, replay_concatenates hnew hfirst hsecond⟩

end IntervalDump
