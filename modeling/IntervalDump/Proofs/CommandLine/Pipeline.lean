import IntervalDump.CommandLine
import IntervalDump.Proofs.Collector.Replay
import IntervalDump.Proofs.Config.RoundTrip
import IntervalDump.Proofs.Delivery.Replay
/-!
# A run of the command

What the command does with its inputs, the bytes of a dump and the text of a configuration, in terms
of the library (`runOptions_eq`): it decodes the configuration, adds the names that were given,
reads the dump, joins all series if a reduction was given, and prints one report.

* **Joining cannot fail** (`join_attributes`): the names that are joined are those of the table.
* **Only the union counts** (`SameRequest`): the configuration and the names meet once, in
  `Config.addAttributes`, and the rest of the run sees nothing else of them.
-/

namespace IntervalDump

/-! ## Joining everything -/

/-- All series of a collector can be joined, and each of them is. -/
theorem Collector.join_attributes (how : Reduction) (c : Collector) :
    (c.join c.attributes how).error? = none ∧
      ∀ name : String, (c.join c.attributes how).state.series[name]? =
        c.series[name]?.map (Series.joined how) := by
  have hknown : (c.attributes.find? fun name => !c.isRequested name) = none := by
    rw [List.find?_eq_none]
    intro name hname
    simpa [isRequested, attributes] using hname
  obtain ⟨series, hstate, hok, hseries⟩ := each_joinSeries how c.attributes c
  simp only [join, hknown, Outcome.error?_map, Outcome.state_map, hok, hstate, true_and]
  intro name
  have hjoined : series[name]? = c.series[name]?.map (Series.joined how) := by
    rw [hseries]
    by_cases hname : name ∈ c.attributes
    · have hnodup : c.attributes.Nodup := Std.ExtTreeMap.nodup_keys
      rw [hnodup.count, if_pos hname, Function.iterate_one]
    · have hnone : c.series[name]? = none := by
        simpa [attributes] using hname
      rw [hnone, Option.map_none, Option.map_none]
  split <;> exact hjoined

namespace CommandLine

/-! ## The inputs of a run -/

/-- What a run finds in the files that its options name: a dump, and the text of a configuration if
there is one. -/
structure Finds (files : String → Dump.File) (options : Options) (bytes : List UInt8)
    (text? : Option String) : Prop where
  dump_eq : files options.dump = .content bytes
  config_eq : options.config?.map files = text?.map fun text => .content (Utf8.encode text)

/-- The configuration that the names are added to. -/
def baseConfig : Option String → Except Json.Fault Config
  | none => .ok {}
  | some text => Config.parse text

/-- The source that a dump is. -/
def dumpSource (bytes : List UInt8) : Source :=
  .chunked Source.fileRefill bytes none

/-- The inputs are accepted: the configuration is `config` before the names are added, and `c` is
the collector behind the dump. -/
structure Accepts (bytes : List UInt8) (text? : Option String) (names : List String)
    (config : Config) (c : Collector) : Prop where
  decodes : baseConfig text? = .ok config
  requests : (config.addAttributes names).attributes ≠ ∅
  valid : (config.addAttributes names).fault? = none
  reads : (Dump.ofSource (dumpSource bytes) (config.addAttributes names)).result = .ok c

/-- The collector that is printed. -/
def joinedBy (how? : Option Reduction) (c : Collector) : Collector :=
  match how? with
  | none => c
  | some how => (c.join c.attributes how).state

/-- The layout that was asked for. -/
def Options.style (options : Options) : Json.Style :=
  if options.pretty then .pretty else .compact

/-- Two ways to ask for the same: the configurations are the same but for their attributes, and
with the names that are added the attributes are the same too. -/
inductive SameRequest : Except Json.Fault Config → List String → Except Json.Fault Config →
    List String → Prop where
  | fault (fault : Json.Fault) (names names' : List String) :
      SameRequest (.error fault) names (.error fault) names'
  | union {config config' : Config} {names names' : List String}
      (hrest : { config' with attributes := config.attributes } = config)
      (hunion : ∀ name, name ∈ config.attributes ∨ name ∈ names ↔
        name ∈ config'.attributes ∨ name ∈ names') :
      SameRequest (.ok config) names (.ok config') names'

/-- Only which names there are counts, and not the order in which they were added. -/
theorem addAttributes_congr {config config' : Config} {names names' : List String}
    (hrest : { config' with attributes := config.attributes } = config)
    (hunion : ∀ name, name ∈ config.attributes ∨ name ∈ names ↔
      name ∈ config'.attributes ∨ name ∈ names') :
    config'.addAttributes names' = config.addAttributes names := by
  have hattributes : (config'.addAttributes names').attributes =
      (config.addAttributes names).attributes := by
    apply Std.ExtTreeSet.ext_mem
    intro name
    rw [Config.mem_addAttributes, Config.mem_addAttributes, hunion]
  rw [← hrest] at hattributes ⊢
  simp only [Config.addAttributes] at hattributes ⊢
  rw [hattributes]

/-! ## The result of a run -/

/-- What a run makes of the configuration with all names. -/
def resultOf (bytes : List UInt8) (how? : Option Reduction) (config : Config) :
    Except Dump.Error Collector :=
  if config.attributes.isEmpty then .error .nothingRequested
  else (Dump.ofSource (dumpSource bytes) config).result.map (joinedBy how?)

/-- Joining all attributes cannot fail, since each of them was requested. -/
theorem result_joinAll (how? : Option Reduction) (c : Collector) :
    (joinAll how? c).result = .ok (joinedBy how? c) := by
  cases how? with
  | none => rfl
  | some how =>
    simp only [joinAll, Outcome.toExcept, (c.join_attributes how).1]
    rfl

section Run

variable {files files' : String → Dump.File} {options options' : Options} {bytes : List UInt8}
  {text? text?' : Option String}

/-- Collecting from a file that can be read is reading its bytes and joining what was asked for. -/
theorem result_collectWith (hdump : files options.dump = .content bytes) (config : Config) :
    (collectWith files options config).result =
      resultOf bytes options.join? (config.addAttributes options.attributes) := by
  have hread (union : Config) : (Dump.ofFile options.dump (files options.dump) union).result =
      (Dump.ofSource (dumpSource bytes) union).result := by
    rw [hdump]
    rfl
  simp only [collectWith, resultOf]
  split
  · rfl
  · rw [← hread]
    rcases hresult : (Dump.ofFile options.dump (files options.dump)
      (config.addAttributes options.attributes)).result with error | c
    · exact hresult
    · exact result_joinAll options.join? c

/-- The rest of a run sees the names in the union only. -/
theorem collectWith_congr (hdump : files options.dump = .content bytes)
    (hdump' : files' options'.dump = .content bytes) (hpath : options'.dump = options.dump)
    (hjoin : options'.join? = options.join?) {config config' : Config}
    (hunion : config'.addAttributes options'.attributes =
      config.addAttributes options.attributes) :
    collectWith files' options' config' = collectWith files options config := by
  have hfile : files' options.dump = files options.dump := by rw [hdump, ← hpath, hdump']
  simp only [collectWith, hunion, hpath, hjoin, hfile]

/-- A file of a valid encoding is a configuration just if its text is one. -/
theorem configOf_encode (text : String) :
    configOf (.content (Utf8.encode text)) = (Config.parse text).mapError .json := by
  simp only [configOf, Dump.File.text?, Utf8.decode_encode]
  rfl

/-- What is told of the file of a configuration. -/
def configNotices : Option String → Array Notice
  | none => #[]
  | some path => #[.configOpened path]

/-- **What a command collects**, with the notices that it gives. -/
theorem collect_eq (h : Finds files options bytes text?) :
    collect files options =
      match baseConfig text? with
      | .error fault => ⟨.error (.json fault), configNotices options.config?⟩
      | .ok config =>
        let reading := collectWith files options config
        ⟨reading.result, configNotices options.config? ++ reading.notices⟩ := by
  have hconfig := h.config_eq
  unfold collect
  rcases hpath : options.config? with _ | path <;> rcases text? with _ | text <;>
    rw [hpath] at hconfig
  · simp only [baseConfig, configNotices, Array.empty_append]
  · contradiction
  · contradiction
  · have hfile : files path = .content (Utf8.encode text) := Option.some.inj hconfig
    simp only [hfile, configOf_encode, baseConfig]
    cases Config.parse text <;> rfl

/-- The result depends on the contents of the two files, and on nothing else of them. -/
theorem result_collect (h : Finds files options bytes text?) :
    (collect files options).result =
      match baseConfig text? with
      | .error fault => .error (.json fault)
      | .ok config => resultOf bytes options.join? (config.addAttributes options.attributes) := by
  rw [collect_eq h]
  cases baseConfig text? with
  | error fault => rfl
  | ok config => exact result_collectWith h.dump_eq config

/-- A result is a collector if some attribute was requested and the dump can be read. -/
theorem resultOf_eq_ok_iff {how? : Option Reduction} {config : Config} {joined : Collector} :
    resultOf bytes how? config = .ok joined ↔
      config.attributes ≠ ∅ ∧
        ∃ c, (Dump.ofSource (dumpSource bytes) config).result = .ok c ∧
          joinedBy how? c = joined := by
  unfold resultOf
  by_cases hempty : config.attributes.isEmpty = true
  · rw [if_pos hempty]
    simp [Std.ExtTreeSet.isEmpty_iff.mp hempty]
  · rw [if_neg hempty]
    have hrequests : config.attributes ≠ ∅ := fun h => hempty (Std.ExtTreeSet.isEmpty_iff.mpr h)
    rcases (Dump.ofSource (dumpSource bytes) config).result with error | c
    · simp [Except.map]
    · simp [Except.map, hrequests]

/-- A dump is only read with a valid configuration. The collector behind it has a series for every
requested attribute. -/
theorem fault?_of_ofSource {source : Source} {config : Config} {c : Collector}
    (h : (Dump.ofSource source config).result = .ok c) :
    config.fault? = none ∧ c.attributes = config.attributes.toList := by
  unfold Dump.ofSource at h
  rcases hfresh : Collector.ofConfig config with error | start <;> rw [hfresh] at h
  · contradiction
  obtain ⟨hvalid, rfl⟩ := Collector.eq_fresh_of_ofConfig hfresh
  refine ⟨hvalid, ?_⟩
  have hstate : (deliver Collector.handler source (.fresh config)).state = c := by
    unfold Dump.collect Outcome.toExcept at h
    rcases herror : (deliver Collector.handler source (.fresh config)).error? with _ | error <;>
      simp only [herror] at h <;> cases h
    rfl
  rw [state_deliver] at hstate
  have hunjoined := (Collector.unjoined_fresh config).replay source.script.delivered
  have hconfig := Collector.config_replay source.script.delivered (.fresh config)
  rw [hstate] at hunjoined hconfig
  rw [Collector.Aligned.attributes_eq hunjoined, hconfig]
  rfl

/-- **A run collects something exactly if all of its inputs are accepted.** -/
theorem result_collect_eq_ok_iff (h : Finds files options bytes text?) (joined : Collector) :
    (collect files options).result = .ok joined ↔
      ∃ config c, Accepts bytes text? options.attributes config c ∧
        joinedBy options.join? c = joined := by
  rw [result_collect h]
  constructor
  · intro hok
    rcases hbase : baseConfig text? with fault | config <;> rw [hbase] at hok
    · contradiction
    obtain ⟨hrequests, c, hread, hjoined⟩ := resultOf_eq_ok_iff.mp hok
    exact ⟨config, c, ⟨hbase, hrequests, (fault?_of_ofSource hread).1, hread⟩, hjoined⟩
  · rintro ⟨config, c, haccepts, hjoined⟩
    simp only [haccepts.decodes]
    exact resultOf_eq_ok_iff.mpr ⟨haccepts.requests, c, haccepts.reads, hjoined⟩

/-- Runs that ask for the same collect the same. -/
theorem result_collect_congr (h : Finds files options bytes text?)
    (h' : Finds files' options' bytes text?') (hjoin : options'.join? = options.join?)
    (hsame : SameRequest (baseConfig text?) options.attributes (baseConfig text?')
      options'.attributes) :
    (collect files' options').result = (collect files options).result := by
  rw [result_collect h, result_collect h', hjoin]
  generalize baseConfig text? = base, baseConfig text?' = base' at hsame
  generalize options.attributes = names, options'.attributes = names' at hsame
  cases hsame with
  | fault => rfl
  | union hrest hunion => simp only [addAttributes_congr hrest hunion]

/-- **Two commands with the same request collect the same**, wherever the parts of the request
stand. -/
theorem collect_congr (h : Finds files options bytes text?)
    (h' : Finds files' options' bytes text?') (hjoin : options'.join? = options.join?)
    (hsame : SameRequest (baseConfig text?) options.attributes (baseConfig text?')
      options'.attributes)
    (hdump : options'.dump = options.dump) (hpath : options'.config? = options.config?) :
    collect files' options' = collect files options := by
  rw [collect_eq h, collect_eq h', hpath]
  generalize baseConfig text? = base, baseConfig text?' = base' at hsame
  generalize hnames : options.attributes = names, hnames' : options'.attributes = names' at hsame
  cases hsame with
  | fault => rfl
  | union hrest hunion =>
    have hunion := addAttributes_congr hrest hunion
    rw [← hnames, ← hnames'] at hunion
    simp only [collectWith_congr h.dump_eq h'.dump_eq hdump hjoin hunion]

/-- A report is printed, and the command succeeds. -/
theorem runOptions_of_ok {c : Collector} (h : (collect files options).result = .ok c) :
    (runOptions files options).exit = 0 ∧
      (runOptions files options).output = Report.render options.style c ++ "\n" := by
  simp only [runOptions, h, true_and]
  rfl

/-- Nothing is printed, and the command fails. -/
theorem runOptions_of_error {error : Dump.Error}
    (h : (collect files options).result = .error error) :
    (runOptions files options).exit = 1 ∧ (runOptions files options).output = "" := by
  simp only [runOptions, h, and_self]

/-- **The command is the library, one step after the other.** A run prints a report exactly if the
configuration decodes, something is requested, the configuration with all names is valid and the
dump is read with it; this report is the one of the collector behind the dump, with all series
joined if a reduction was given, which never fails. Otherwise nothing is printed. Two runs on the
same dump that ask for the same attributes, wherever and however often they are named, end alike. -/
theorem runOptions_eq (h : Finds files options bytes text?) :
    ((runOptions files options).exit = 0 ↔
      ∃ config c, Accepts bytes text? options.attributes config c) ∧
    (∀ config c, Accepts bytes text? options.attributes config c →
      (runOptions files options).output =
        Report.render options.style (joinedBy options.join? c) ++ "\n" ∧
      c.attributes = (config.addAttributes options.attributes).attributes.toList ∧
      ∀ how, (c.join c.attributes how).error? = none ∧
        ∀ name : String, (c.join c.attributes how).state.series[name]? =
          c.series[name]?.map (Series.joined how)) ∧
    ((runOptions files options).exit ≠ 0 → (runOptions files options).output = "") ∧
    ∀ (files' : String → Dump.File) (options' : Options) (text?' : Option String),
      Finds files' options' bytes text?' → options'.join? = options.join? →
      options'.pretty = options.pretty →
      SameRequest (baseConfig text?) options.attributes (baseConfig text?') options'.attributes →
      (runOptions files' options').exit = (runOptions files options).exit ∧
      (runOptions files' options').output = (runOptions files options).output ∧
      (options'.dump = options.dump → options'.config? = options.config? →
        runOptions files' options' = runOptions files options) := by
  -- each part is read off the result of collecting, which is `.ok` just if the files are accepted
  refine ⟨?_, ?_, ?_, ?_⟩
  · constructor
    · intro hexit
      rcases hresult : (collect files options).result with error | joined
      · rw [(runOptions_of_error hresult).1] at hexit
        contradiction
      · obtain ⟨config, c, haccepts, -⟩ := (result_collect_eq_ok_iff h joined).mp hresult
        exact ⟨config, c, haccepts⟩
    · rintro ⟨config, c, haccepts⟩
      have hresult := (result_collect_eq_ok_iff h _).mpr ⟨config, c, haccepts, rfl⟩
      exact (runOptions_of_ok hresult).1
  · intro config c haccepts
    have hresult := (result_collect_eq_ok_iff h _).mpr ⟨config, c, haccepts, rfl⟩
    exact ⟨(runOptions_of_ok hresult).2, (fault?_of_ofSource haccepts.reads).2,
      fun how => c.join_attributes how⟩
  · intro hexit
    rcases hresult : (collect files options).result with error | joined
    · exact (runOptions_of_error hresult).2
    · exact absurd (runOptions_of_ok hresult).1 hexit
  · intro files' options' text?' h' hjoin hpretty hsame
    have hresult := result_collect_congr h h' hjoin hsame
    refine ⟨?_, ?_, ?_⟩
    · simp only [runOptions, hresult]
      split <;> rfl
    · simp only [runOptions, hresult, hpretty]
      split <;> rfl
    · intro hdump hpath
      simp only [runOptions, collect_congr h h' hjoin hsame hdump hpath, hpretty]

end Run

/-- A dump of one interval, and a configuration that requests one of two attributes. -/
def speedFiles (path : String) : Dump.File :=
  if path = "dump.xml" then
    .content (Utf8.encode "<interval begin=\"0\"><edge id=\"e\" speed=\"1\"/></interval>")
  else if path = "config.json" then
    .content (Utf8.encode ((Config.ofAttributes ["density"]).render .pretty))
  else .missing

/-- One run names both attributes, one of them twice; the other run finds one of them in its
configuration. Both print the same report. -/
theorem runOptions_eq_speedFiles :
    let named : Options := ⟨"dump.xml", ["speed", "density", "speed"], some .average, none, true⟩
    let configured : Options := ⟨"dump.xml", ["speed"], some .average, some "config.json", true⟩
    (runOptions speedFiles named).exit = 0 ∧
      (runOptions speedFiles configured).exit = 0 ∧
      (runOptions speedFiles configured).output = (runOptions speedFiles named).output := by
  intro named configured
  have hnamed : Finds speedFiles named _ none := ⟨rfl, rfl⟩
  have hconfigured : Finds speedFiles configured _ (some _) := ⟨rfl, rfl⟩
  have hbase (config : Config) : baseConfig (some (config.render .pretty)) = .ok config :=
    (Config.reads_toValue (config.toValue.isText_render .pretty)).decode
  have hsame : SameRequest (baseConfig none) named.attributes
      (baseConfig (some ((Config.ofAttributes ["density"]).render .pretty)))
      configured.attributes := by
    rw [hbase]
    refine .union rfl fun name => ?_
    show name ∈ (∅ : Std.ExtTreeSet String) ∨ name ∈ ["speed", "density", "speed"] ↔
      name ∈ Std.ExtTreeSet.ofList ["density"] ∨ name ∈ ["speed"]
    rw [Std.ExtTreeSet.mem_ofList, List.contains_iff_mem]
    simp only [Std.ExtTreeSet.not_mem_empty, List.mem_cons, List.not_mem_nil, or_false, false_or]
    tauto
  obtain ⟨-, -, -, hruns⟩ := runOptions_eq hnamed
  obtain ⟨hexit, houtput, -⟩ := hruns speedFiles configured _ hconfigured rfl rfl hsame
  have hzero : (runOptions speedFiles named).exit = 0 := by decide +kernel
  exact ⟨hzero, hexit.trans hzero, houtput⟩

end CommandLine

end IntervalDump
