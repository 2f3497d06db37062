import IntervalDump.Config.Change
import IntervalDump.Proofs.Collector.Step
/-!
# What holds of a collector at any time

A collector may be asked anything in any order, and after an operation has failed it goes on with
what that operation left. This file shows what such histories keep.

* **The shape** of a collector (`Collector.shape`) is everything but the contents of its snapshots:
  the begins, the phase and the lengths of the series.
* **One step** (`Shape.Step`, `apply_step`): an operation keeps the shape, moves to another phase,
  opens an interval, or joins series; and if it fails, it keeps the shape.
* **A whole history** (`run_represents`): the table has the requested names, and every series has as
  many snapshots as there are intervals, except that a joined one has a single snapshot.

The invariant `Aligned` that carries the induction remembers the names that were joined.
-/

namespace IntervalDump.Collector

/-! ## Histories -/

/-- What a collector may be asked to do. -/
inductive Operation where
  | startDocument
  | endDocument
  | startElement (name : Name) (attributes : List Attribute)
  | endElement (name : Name)
  | openInterval (begin : Float)
  | recordElement (kind : Kind) (id : String) (attributes : List Attribute)
  | join (names : List String) (how : Reduction)
  | joinNamed (names : List String) (how : String)

namespace Operation

/-- The step that the operation is. -/
def apply : Operation → Collector → Outcome Error Collector
  | .startDocument => Collector.startDocument
  | .endDocument => Collector.endDocument
  | .startElement name attributes => Collector.startElement name attributes
  | .endElement name => Collector.endElement name
  | .openInterval begin => Collector.openInterval begin
  | .recordElement kind id attributes => Collector.recordElement kind id attributes
  | .join names how => Collector.join names how
  | .joinNamed names how => Collector.joinNamed names how

/-- The names that an operation joins if it succeeds. -/
def names : Operation → List String
  | .join names _ => names
  | .joinNamed names _ => names
  | _ => []

/-- The names that an operation joins. -/
def joined (operation : Operation) (c : Collector) : List String :=
  match (operation.apply c).error? with
  | none => operation.names
  | some _ => []

end Operation

/-- The collector behind some operations; those that fail leave their part of the effect. -/
def run : List Operation → Collector → Collector
  | [], c => c
  | operation :: operations, c => run operations (operation.apply c).state

/-- A history may be run in two parts. -/
theorem run_append (first second : List Operation) (c : Collector) :
    run (first ++ second) c = run second (run first c) := by
  induction first generalizing c with
  | nil => rfl
  | cons operation first ih => exact ih (operation.apply c).state

/-- The names in all the joins among some operations that succeed. -/
def joinedIn : List Operation → Collector → List String
  | [], _ => []
  | operation :: operations, c =>
    operation.joined c ++ joinedIn operations (operation.apply c).state

/-- The ways to make a collector. -/
inductive IsNew : Collector → Prop where
  | ofAttributes (attributes : List String) : IsNew (.ofAttributes attributes)
  | ofConfig {config : Config} {c : Collector} (h : ofConfig config = .ok c) : IsNew c
  | ofChanges {changes : List Config.Change} {c : Collector}
      (h : ofConfig (.ofChanges changes) = .ok c) : IsNew c

/-- A new collector is the one that has received nothing, for a valid configuration. -/
theorem IsNew.eq_fresh {c : Collector} (h : IsNew c) :
    c.config.fault? = none ∧ c = fresh c.config := by
  cases h with
  | ofAttributes attributes => exact ⟨Config.fault?_ofAttributes attributes, rfl⟩
  | ofConfig h =>
    obtain ⟨hvalid, rfl⟩ := eq_fresh_of_ofConfig h
    exact ⟨hvalid, rfl⟩
  | ofChanges h =>
    obtain ⟨hvalid, rfl⟩ := eq_fresh_of_ofConfig h
    exact ⟨hvalid, rfl⟩

/-! ## Shapes -/

/-- What there is to say of a collector without looking into its snapshots. -/
@[ext]
structure Shape where
  begins : Array Float
  phase : Phase
  /-- The length of a series; `none` if there is none. -/
  length? : String → Option Nat

/-- The shape of what a collector holds. -/
def shape (c : Collector) : Shape where
  begins := c.begins
  phase := c.phase
  length? name := c.series[name]?.map Series.length

/-- The shape keeps the begins as they are. -/
@[simp] theorem begins_shape (c : Collector) : c.shape.begins = c.begins := rfl

/-- The shape keeps the phase as it is. -/
@[simp] theorem phase_shape (c : Collector) : c.shape.phase = c.phase := rfl

namespace Shape

/-- The shape behind the start of an interval. -/
def opened (begin : Float) (shape : Shape) : Shape where
  begins := shape.begins.push begin
  phase := .parsing
  length? name := (shape.length? name).map (· + 1)

/-- The shape behind a join. -/
def joined (names : List String) (shape : Shape) : Shape where
  begins := shape.begins
  phase := if names.isEmpty then shape.phase else .reduced
  length? name := (shape.length? name).map fun n => if name ∈ names then 1 else n

/-- What a step may do to a shape, depending on whether it fails, and on the names it joins. -/
inductive Step (before : Shape) : Bool → List String → Shape → Prop where
  | kept (failed : Bool) : Step before failed [] before
  | moved (phase : Phase) (hbefore : before.phase ≠ .reduced)
      (hphase : phase = .parsing ∨ phase = .parsed) : Step before false [] { before with phase }
  | opened (begin : Float) (hbefore : before.phase ≠ .reduced) :
      Step before false [] (before.opened begin)
  | joined (names : List String) : Step before false names (before.joined names)

/-- A failure changes no part of the shape. -/
theorem Step.eq_of_failed {before after : Shape} {names : List String}
    (h : before.Step true names after) : after = before := by
  cases h
  rfl

end Shape

/-! ## One step -/

/-- Measurements go into snapshots that are there, and so leave the shape. -/
theorem shape_recordElement (kind : Kind) (id : String) (attributes : List Attribute)
    (c : Collector) :
    (c.recordElement kind id attributes).state.config = c.config ∧
      (c.recordElement kind id attributes).state.shape = c.shape := by
  obtain ⟨series, hstate, hlength⟩ := recordElement_state kind id attributes c
  rw [hstate]
  exact ⟨rfl, by simp only [shape, hlength]⟩

/-- An interval is a step of the shape: all series grow by one, or nothing changes. -/
theorem step_openInterval (begin : Float) (c : Collector) :
    (c.openInterval begin).state.config = c.config ∧
      c.shape.Step (c.openInterval begin).error?.isSome [] (c.openInterval begin).state.shape := by
  by_cases hphase : c.phase = .reduced
  · rw [openInterval_of_reduced hphase]
    exact ⟨rfl, .kept true⟩
  · obtain ⟨hok, hstate⟩ := openInterval_of_not_reduced hphase begin
    have hshape : (c.openInterval begin).state.shape = c.shape.opened begin := by
      rw [hstate]
      refine Shape.ext rfl rfl (funext fun name => ?_)
      simp only [shape, Shape.opened, Std.ExtTreeMap.getElem?_map, Option.map_map]
      congr 1
    rw [hok, hshape, hstate]
    exact ⟨rfl, .opened begin hphase⟩

/-- A start tag is a step of the shape, whatever element it begins. -/
theorem step_startElement (name : Name) (attributes : List Attribute) (c : Collector) :
    (c.startElement name attributes).state.config = c.config ∧
      c.shape.Step (c.startElement name attributes).error?.isSome []
        (c.startElement name attributes).state.shape := by
  unfold startElement
  split
  · simp only [startInterval]
    split
    · exact ⟨rfl, .kept true⟩
    · split
      · exact ⟨rfl, .kept true⟩
      · next begin _ =>
        have hok := Outcome.error?_tellIf (ε := Error) c.insideInterval
          (.intervalNested c.config.intervalTag begin) { c with insideInterval := true }
        rw [Outcome.state_andThen_of_ok hok, Outcome.error?_andThen_of_ok hok, Outcome.state_tellIf]
        exact step_openInterval begin { c with insideInterval := true }
  · split
    · exact ⟨rfl, .kept false⟩
    · next kind _ =>
      unfold startMeasured
      split
      · split
        · exact ⟨rfl, .kept true⟩
        · next id _ =>
          obtain ⟨hconfig, hshape⟩ := shape_recordElement kind id attributes c
          rw [hshape]
          exact ⟨hconfig, .kept _⟩
      · exact ⟨rfl, .kept false⟩

/-- A join is a step of the shape, also where it fails behind some of the names. -/
theorem step_join (names : List String) (how : Reduction) (c : Collector) :
    (c.join names how).state.config = c.config ∧
      c.shape.Step (c.join names how).error?.isSome
        (match (c.join names how).error? with | none => names | some _ => [])
        (c.join names how).state.shape := by
  unfold join
  split
  · exact ⟨rfl, .kept true⟩
  · obtain ⟨series, hstate, hok, hseries⟩ := each_joinSeries how names c
    have hlength (name : String) : series[name]?.map Series.length =
        (c.series[name]?.map Series.length).map fun n => if name ∈ names then 1 else n := by
      rw [hseries, Option.map_map, Option.map_map]
      congr 1
      funext s
      simp only [Function.comp_apply, Series.length_iterate_joined, List.count_eq_zero, ite_not]
    rw [Outcome.error?_map, Outcome.state_map, hok, hstate]
    have hjoined : c.shape.Step false names (c.shape.joined names) := .joined names
    cases names with
    | nil =>
      have hshape : ({ c with series } : Collector).shape = c.shape.joined [] :=
        Shape.ext rfl rfl (funext hlength)
      rw [← hshape] at hjoined
      exact ⟨rfl, hjoined⟩
    | cons name names =>
      have hshape : ({ c with series, phase := .reduced } : Collector).shape =
          c.shape.joined (name :: names) := Shape.ext rfl rfl (funext hlength)
      rw [← hshape] at hjoined
      exact ⟨rfl, hjoined⟩

/-- **One operation.** It keeps the configuration, and does to the shape one of four things. -/
theorem apply_step (operation : Operation) (c : Collector) :
    (operation.apply c).state.config = c.config ∧
      c.shape.Step (operation.apply c).error?.isSome (operation.joined c)
        (operation.apply c).state.shape := by
  have hnone {failed : Option Error} :
      (match failed with | none => ([] : List String) | some _ => []) = [] := by
    cases failed <;> rfl
  -- an operation without names joins nothing, whether it fails or not
  cases operation with
  | startDocument =>
    simp only [Operation.joined, Operation.names, Operation.apply, hnone]
    unfold Collector.startDocument
    split
    · exact ⟨rfl, .kept true⟩
    · next hphase => exact ⟨rfl, .moved .parsing hphase (.inl rfl)⟩
  | endDocument =>
    simp only [Operation.joined, Operation.names, Operation.apply, hnone]
    unfold Collector.endDocument
    split
    · exact ⟨rfl, .kept false⟩
    · next hphase => exact ⟨rfl, .moved .parsed hphase (.inr rfl)⟩
  | startElement name attributes =>
    simp only [Operation.joined, Operation.names, Operation.apply, hnone]
    exact step_startElement name attributes c
  | endElement name =>
    simp only [Operation.joined, Operation.names, Operation.apply, hnone]
    unfold Collector.endElement
    split <;> exact ⟨rfl, .kept false⟩
  | openInterval begin =>
    simp only [Operation.joined, Operation.names, Operation.apply, hnone]
    exact step_openInterval begin c
  | recordElement kind id attributes =>
    simp only [Operation.joined, Operation.names, Operation.apply, hnone]
    obtain ⟨hconfig, hshape⟩ := shape_recordElement kind id attributes c
    rw [hshape]
    exact ⟨hconfig, .kept _⟩
  | join names how => exact step_join names how c
  | joinNamed names how =>
    simp only [Operation.joined, Operation.names, Operation.apply, Collector.joinNamed]
    cases Reduction.parse how with
    | error unknown => exact ⟨rfl, .kept true⟩
    | ok how => exact step_join names how c

/-! ## Whole histories -/

/-- A shape that is as it should be for these requested names when those of `joined` were joined. -/
structure Aligned (requested : Std.ExtTreeSet String) (joined : List String) (shape : Shape) :
    Prop where
  isSome_iff : ∀ name, (shape.length? name).isSome ↔ name ∈ requested
  length_eq : ∀ name n, shape.length? name = some n →
    n = if name ∈ joined then 1 else shape.begins.size
  reduced_iff : shape.phase = .reduced ↔ joined ≠ []
  begins_of_empty : shape.phase = .empty → shape.begins = #[]

variable {requested : Std.ExtTreeSet String} {joined : List String}

/-- Series are joined in the last phase only. -/
theorem Aligned.joined_eq_nil {shape : Shape} (h : Aligned requested joined shape)
    (hphase : shape.phase ≠ .reduced) : joined = [] := by
  by_contra hne
  exact hphase (h.reduced_iff.2 hne)

/-- **A step keeps the shape aligned**, with the names that were joined in it. -/
theorem Aligned.step {names : List String} {before after : Shape} {failed : Bool}
    (h : Aligned requested joined before) (hstep : before.Step failed names after) :
    Aligned requested (joined ++ names) after := by
  cases hstep with
  | kept => simpa using h
  | moved phase hbefore hphase =>
    have hjoined := h.joined_eq_nil hbefore
    rw [List.append_nil]
    refine ⟨h.isSome_iff, h.length_eq, ?_, ?_⟩
    · rcases hphase with rfl | rfl <;> simp [hjoined]
    · rcases hphase with rfl | rfl <;> simp
  | opened begin hbefore =>
    have hjoined := h.joined_eq_nil hbefore
    rw [List.append_nil]
    refine ⟨?_, ?_, by simp [Shape.opened, hjoined], by simp [Shape.opened]⟩
    · intro name
      simpa [Shape.opened] using h.isSome_iff name
    · intro name n hn
      obtain ⟨m, hm, rfl⟩ := Option.map_eq_some_iff.1 hn
      simpa [Shape.opened, hjoined] using h.length_eq name m hm
  -- a join sets the length of its series to one, and with a name it ends the history of intervals
  | joined =>
    refine ⟨?_, ?_, ?_, ?_⟩
    · intro name
      simpa [Shape.joined] using h.isSome_iff name
    · intro name n hn
      obtain ⟨m, hm, rfl⟩ := Option.map_eq_some_iff.1 hn
      have hlength := h.length_eq name m hm
      by_cases hname : name ∈ names
      · simp [hname]
      · simpa [hname, Shape.joined] using hlength
    · cases names with
      | nil => simpa [Shape.joined] using h.reduced_iff
      | cons name names => simp [Shape.joined]
    · intro hphase
      cases names with
      | nil => exact h.begins_of_empty hphase
      | cons name names => simp [Shape.joined] at hphase

/-- **A history keeps the shape aligned**, with all the names that were joined in it. -/
theorem Aligned.history (operations : List Operation) {c : Collector}
    (h : Aligned requested joined c.shape) :
    (run operations c).config = c.config ∧
      Aligned requested (joined ++ joinedIn operations c) (run operations c).shape := by
  induction operations generalizing c joined with
  | nil => exact ⟨rfl, by simpa [joinedIn, run] using h⟩
  | cons operation operations ih =>
    obtain ⟨hconfig, hstep⟩ := apply_step operation c
    obtain ⟨hrun, haligned⟩ := ih (h.step hstep)
    exact ⟨hrun.trans hconfig, by simpa [joinedIn, run] using haligned⟩

/-- A new collector has an empty series for every attribute. -/
theorem aligned_fresh (config : Config) : Aligned config.attributes [] (fresh config).shape := by
  have hlength (name : String) : (fresh config).shape.length? name =
      if name ∈ config.attributes then some 0 else none := by
    show (fresh config).series[name]?.map Series.length = _
    rw [getElem?_series_fresh]
    split <;> rfl
  refine ⟨?_, ?_, by simp [shape, fresh], fun _ => rfl⟩
  · intro name
    rw [hlength]
    split <;> simp_all
  · intro name n hn
    rw [hlength, Option.ite_none_right_eq_some] at hn
    exact (Option.some.inj hn.2).symm

/-- A collector that was built is aligned, and its configuration is valid. -/
theorem IsNew.aligned {c : Collector} (h : c.IsNew) :
    c.config.fault? = none ∧ Aligned c.config.attributes [] c.shape := by
  obtain ⟨hvalid, hfresh⟩ := h.eq_fresh
  refine ⟨hvalid, ?_⟩
  rw [hfresh]
  exact aligned_fresh c.config

/-- The collector is what is left of a new one after some operations. -/
def IsReachable (c : Collector) : Prop :=
  ∃ start operations, IsNew start ∧ run operations start = c

/-- What can be reached can be gone on from. -/
theorem IsReachable.run {c : Collector} (h : c.IsReachable) (operations : List Operation) :
    (run operations c).IsReachable := by
  obtain ⟨start, earlier, hnew, rfl⟩ := h
  exact ⟨start, earlier ++ operations, hnew, run_append earlier operations start⟩

/-- Whatever was reached is aligned, with some names joined. -/
theorem IsReachable.exists_aligned {c : Collector} (h : c.IsReachable) :
    ∃ joined, Aligned c.config.attributes joined c.shape := by
  obtain ⟨start, operations, hnew, rfl⟩ := h
  obtain ⟨hconfig, haligned⟩ := hnew.aligned.2.history operations
  rw [← hconfig] at haligned
  exact ⟨_, haligned⟩

/-- What there is to say of a collector `after` some operations on the collector `c`. -/
structure Represents (c : Collector) (operations : List Operation) (after : Collector) : Prop where
  config_eq : after.config = c.config
  valid : after.config.fault? = none
  mem_series_iff : ∀ name : String, name ∈ after.series ↔ name ∈ after.config.attributes
  /-- Before anything is joined there is a snapshot for every interval. -/
  aligned : after.phase ≠ .reduced → ∀ (name : String) series, after.series[name]? = some series →
    series.length = after.begins.size
  /-- Behind a join there is a single snapshot of what was joined at some time. -/
  reduced : after.phase = .reduced → ∀ (name : String) series, after.series[name]? = some series →
    series.length = if name ∈ joinedIn operations c then 1 else after.begins.size
  empty : after.phase = .empty → after.begins = #[] ∧
    ∀ (name : String) series, after.series[name]? = some series → series = .empty
  /-- What fails now leaves the intervals, the phase and the lengths alone. -/
  failed : ∀ (operation : Operation) error, (operation.apply after).error? = some error →
    let left := (operation.apply after).state
    left.begins = after.begins ∧ left.phase = after.phase ∧
      ∀ name : String, left.series[name]?.map Series.length = after.series[name]?.map Series.length

/-- **The table stays aligned with the intervals**, whatever a new collector is asked to do, and
however often it refuses. -/
theorem run_represents {c : Collector} (hnew : c.IsNew) (operations : List Operation) :
    Represents c operations (run operations c) := by
  obtain ⟨hvalid, hfresh⟩ := hnew.eq_fresh
  have hstart : Aligned c.config.attributes [] c.shape := by
    rw [hfresh]
    exact aligned_fresh c.config
  obtain ⟨hconfig, haligned⟩ := hstart.history operations
  rw [List.nil_append] at haligned
  generalize run operations c = after at hconfig haligned
  have hlookup {name : String} {series : Series} (h : after.series[name]? = some series) :
      after.shape.length? name = some series.length := by
    show after.series[name]?.map Series.length = _
    rw [h, Option.map_some]
  refine ⟨hconfig, ?_, ?_, ?_,
    fun _ name series h => haligned.length_eq name _ (hlookup h), ?_, ?_⟩
  · rw [hconfig, hvalid]
  · intro name
    rw [hconfig, ← haligned.isSome_iff, Std.ExtTreeMap.mem_iff_isSome_getElem?]
    show _ ↔ (after.series[name]?.map Series.length).isSome
    rw [Option.isSome_map]
  · intro hphase name series h
    simpa [haligned.joined_eq_nil hphase] using haligned.length_eq name _ (hlookup h)
  · intro hphase
    have hbegins : after.begins = #[] := haligned.begins_of_empty hphase
    refine ⟨hbegins, ?_⟩
    intro name series h
    have hjoined : joinedIn operations c = [] := haligned.joined_eq_nil (by simp [hphase])
    have hlength : series.length = 0 := by
      simpa [hjoined, hbegins] using haligned.length_eq name _ (hlookup h)
    exact Series.ext (List.eq_nil_of_length_eq_zero (by rw [Series.length_toList, hlength]))
  · -- a failure is a step of the shape that leaves it
    intro operation error herror
    have hstep := (apply_step operation after).2
    rw [herror] at hstep
    have hleft := hstep.eq_of_failed
    exact ⟨congrArg Shape.begins hleft, congrArg Shape.phase hleft,
      fun name => congrFun (congrArg Shape.length? hleft) name⟩

/-- A history in which a measurement, an element, a join and an interval are refused, and parsing is
taken up again behind the end of a document. -/
def refusedHistory : List Operation :=
  [.recordElement .edge "e" [⟨.ofLocal "speed", "1"⟩],
   .startDocument,
   .openInterval 0,
   .startElement (.ofLocal "lane")
     [⟨.ofLocal "id", "l"⟩, ⟨.ofLocal "speed", "1"⟩, ⟨.ofLocal "speed", "?"⟩],
   .endDocument,
   .openInterval 1,
   .join ["speed", "length"] .sum,
   .joinNamed ["speed", "speed"] "average",
   .openInterval 2]

/-- Behind this history one of two series is joined and the other one has two snapshots. -/
theorem run_represents_refusedHistory :
    (ofAttributes ["speed", "density"]).IsNew ∧
      (run refusedHistory (ofAttributes ["speed", "density"])).phase = .reduced ∧
      joinedIn refusedHistory (ofAttributes ["speed", "density"]) = ["speed", "speed"] ∧
      (run refusedHistory (ofAttributes ["speed", "density"])).begins.size = 2 ∧
      Represents (ofAttributes ["speed", "density"]) refusedHistory
        (run refusedHistory (ofAttributes ["speed", "density"])) :=
  ⟨.ofAttributes _, by decide +kernel, by decide +kernel, by decide +kernel,
    run_represents (.ofAttributes _) refusedHistory⟩

end IntervalDump.Collector
