import Mathlib.Data.List.DropRight
import Mathlib.Data.List.Induction
import IntervalDump.Config.Change
import IntervalDump.Proofs.Collector.Step
/-!
# What a list of changes comes to

A change either begins again with a whole configuration or sets one part. So a list of changes has a
**base** (`Config.base`), the configuration that was begun with last, and only the changes **since**
then count (`Config.sinceBase`).

* **The last value of a part stays** (`part_foldl_change`), whichever part it is. Attributes are
  added to those of the base (`mem_attributes_foldl_change`).
* **Changes of different parts commute** (`change_change_of_independent`), and so do two that add
  attributes.
* **Main statement** (`builds_ofChanges`): what a list of changes builds is described by the last
  values, and whether it is a collector depends on the names alone.
-/

namespace IntervalDump.Config

/-! ## What a change does -/

namespace Change

/-- The configuration that takes the place of everything before the change. -/
def reset? : Change → Option Config
  | .restart => some {}
  | .load config => some config
  | _ => none

/-- The part that is set or added to. -/
def field? : Change → Option Field
  | .restart | .load _ => none
  | .addAttribute _ | .addAttributes _ => some .attributes
  | .setIntervalTag _ => some .intervalTag
  | .setBeginAttribute _ => some .beginAttribute
  | .setIdAttribute _ => some .idAttribute
  | .setKinds _ => some .kinds

/-- The attributes that are added. -/
def added : Change → List String
  | .addAttribute name => [name]
  | .addAttributes names => names
  | _ => []

/-- The tag that the change sets. -/
def intervalTag? : Change → Option String
  | .setIntervalTag tag => some tag
  | _ => none

/-- The name that the change sets for the begin of intervals. -/
def beginAttribute? : Change → Option String
  | .setBeginAttribute name => some name
  | _ => none

/-- The name that the change sets for the id of elements. -/
def idAttribute? : Change → Option String
  | .setIdAttribute name => some name
  | _ => none

/-- The kinds that the change sets. -/
def kinds? : Change → Option KindSet
  | .setKinds kinds => some (.ofList kinds)
  | _ => none

/-- Neither change begins again, and they do not set the same part. Adding attributes is no setting:
both may do that. -/
structure Independent (first second : Change) : Prop where
  reset?_first : first.reset? = none
  reset?_second : second.reset? = none
  eq_attributes : ∀ field, first.field? = some field → second.field? = some field →
    field = .attributes

end Change

/-- A change that starts anew forgets what was there. -/
theorem change_of_reset? {c : Change} {start : Config} (h : c.reset? = some start)
    (config : Config) : config.change c = start := by
  cases c <;> cases h <;> rfl

/-- A change that does not start anew only adds attributes. -/
theorem mem_attributes_change {c : Change} (h : c.reset? = none) (config : Config)
    (name : String) :
    name ∈ (config.change c).attributes ↔ name ∈ config.attributes ∨ name ∈ c.added := by
  cases c with
  | restart => cases h
  | load => cases h
  | addAttribute => exact mem_addAttributes
  | addAttributes => exact mem_addAttributes
  | setIntervalTag => simp [change, Change.added]
  | setBeginAttribute => simp [change, Change.added]
  | setIdAttribute => simp [change, Change.added]
  | setKinds => simp [change, Change.added]

/-- Requesting attributes twice is requesting them all, in either order. -/
theorem addAttributes_comm (first second : List String) (config : Config) :
    (config.addAttributes first).addAttributes second =
      (config.addAttributes second).addAttributes first := by
  have hattributes : ((config.addAttributes first).addAttributes second).attributes =
      ((config.addAttributes second).addAttributes first).attributes := by
    apply Std.ExtTreeSet.ext_mem
    intro name
    simp only [mem_addAttributes]
    exact or_right_comm
  exact congrArg (fun attributes => { config with attributes }) hattributes

/-- **Changes that set different parts can be made in either order.** -/
theorem change_change_of_independent {first second : Change} (h : first.Independent second)
    (config : Config) :
    (config.change first).change second = (config.change second).change first := by
  obtain ⟨hfirst, hsecond, hfield⟩ := h
  -- A pair sets different parts, adds attributes twice, or is not independent.
  cases first <;> cases second <;>
    first
    | rfl
    | exact addAttributes_comm _ _ config
    | (cases hfirst; done)
    | (cases hsecond; done)
    | cases hfield _ rfl rfl

/-! ## The base and the changes since -/

/-- The configuration that was begun with last. -/
def base (changes : List Change) : Config :=
  (changes.filterMap Change.reset?).getLastD {}

/-- The changes behind the last one that begins again. -/
def sinceBase (changes : List Change) : List Change :=
  changes.rtakeWhile fun c => c.reset?.isNone

/-- Behind the last new start, there is no other. -/
theorem reset?_of_mem_sinceBase {changes : List Change} {c : Change} (h : c ∈ sinceBase changes) :
    c.reset? = none :=
  Option.isNone_iff_eq_none.mp
    (List.mem_rtakeWhile_imp (p := fun c : Change => c.reset?.isNone) h)

/-- The last change is made last. -/
theorem ofChanges_concat (changes : List Change) (c : Change) :
    ofChanges (changes ++ [c]) = (ofChanges changes).change c :=
  List.foldl_concat ..

/-- **Only the base and the changes since then count.** -/
theorem ofChanges_eq (changes : List Change) :
    ofChanges changes = (sinceBase changes).foldl change (base changes) := by
  induction changes using List.reverseRecOn with
  | nil => rfl
  | append_singleton changes c ih =>
    rw [ofChanges_concat]
    cases hreset : c.reset? with
    | some start =>
      have hbase : base (changes ++ [c]) = start := by
        rw [base, List.filterMap_append, List.filterMap_cons_some hreset, List.filterMap_nil,
          List.getLastD_concat]
      have hsince : sinceBase (changes ++ [c]) = [] :=
        List.rtakeWhile_concat_neg _ _ _ (by rw [hreset]; exact Bool.false_ne_true)
      rw [hbase, hsince, List.foldl_nil, change_of_reset? hreset]
    | none =>
      have hbase : base (changes ++ [c]) = base changes := by
        rw [base, List.filterMap_append, List.filterMap_cons_none hreset, List.filterMap_nil,
          List.append_nil, base]
      have hsince : sinceBase (changes ++ [c]) = sinceBase changes ++ [c] :=
        List.rtakeWhile_concat_pos _ _ _ (by rw [hreset]; rfl)
      rw [hbase, hsince, List.foldl_concat, ih]

section SinceBase

variable {settings : List Change} (h : ∀ c ∈ settings, c.reset? = none) (config : Config)
include h

/-- **The last value that is given for a part stays.** -/
theorem part_foldl_change {α : Type} {part : Config → α} {value? : Change → Option α}
    (hpart : ∀ config c, c.reset? = none →
      part (config.change c) = (value? c).getD (part config)) :
    part (settings.foldl change config) = (settings.filterMap value?).getLastD (part config) := by
  induction settings generalizing config with
  | nil => rfl
  | cons c settings ih =>
    obtain ⟨hc, hrest⟩ := List.forall_mem_cons.mp h
    rw [List.foldl_cons, ih hrest, hpart config c hc]
    cases hvalue : value? c with
    | none => rw [List.filterMap_cons_none hvalue, Option.getD_none]
    | some value => rw [List.filterMap_cons_some hvalue, List.getLastD_cons, Option.getD_some]

/-- Changes that do not start anew add their attributes one after the other. -/
theorem mem_attributes_foldl_change (name : String) :
    name ∈ (settings.foldl change config).attributes ↔
      name ∈ config.attributes ∨ ∃ c ∈ settings, name ∈ c.added := by
  induction settings generalizing config with
  | nil => simp
  | cons c settings ih =>
    obtain ⟨hc, hrest⟩ := List.forall_mem_cons.mp h
    rw [List.foldl_cons, ih hrest, mem_attributes_change hc, List.exists_mem_cons_iff, or_assoc]

end SinceBase

/-- What a list of changes comes to, part by part: the attributes of the base and all that were
added since, and of every other part the last value since the base, or else that of the base. -/
structure Describes (changes : List Change) (config : Config) : Prop where
  mem_attributes : ∀ name : String, name ∈ config.attributes ↔
    name ∈ (base changes).attributes ∨ ∃ c ∈ sinceBase changes, name ∈ c.added
  intervalTag : config.intervalTag =
    ((sinceBase changes).filterMap Change.intervalTag?).getLastD (base changes).intervalTag
  beginAttribute : config.beginAttribute =
    ((sinceBase changes).filterMap Change.beginAttribute?).getLastD (base changes).beginAttribute
  idAttribute : config.idAttribute =
    ((sinceBase changes).filterMap Change.idAttribute?).getLastD (base changes).idAttribute
  kinds : config.kinds =
    ((sinceBase changes).filterMap Change.kinds?).getLastD (base changes).kinds

/-- A description fits one configuration only. -/
theorem Describes.eq {changes : List Change} {config config' : Config}
    (h : Describes changes config) (h' : Describes changes config') : config = config' := by
  have hattributes : config.attributes = config'.attributes := by
    apply Std.ExtTreeSet.ext_mem
    intro name
    rw [h.mem_attributes, h'.mem_attributes]
  have htag := h.intervalTag.trans h'.intervalTag.symm
  have hbegin := h.beginAttribute.trans h'.beginAttribute.symm
  have hid := h.idAttribute.trans h'.idAttribute.symm
  have hkinds := h.kinds.trans h'.kinds.symm
  obtain ⟨attributes, intervalTag, beginAttribute, idAttribute, kinds⟩ := config
  simp only at hattributes htag hbegin hid hkinds
  rw [hattributes, htag, hbegin, hid, hkinds]

/-- What the changes come to is what the description says. -/
theorem describes_ofChanges (changes : List Change) : Describes changes (ofChanges changes) := by
  have hsettings : ∀ c ∈ sinceBase changes, c.reset? = none := fun _ => reset?_of_mem_sinceBase
  rw [ofChanges_eq]
  constructor
  · exact mem_attributes_foldl_change hsettings (base changes)
  all_goals
    apply part_foldl_change hsettings (base changes)
    intro config c hreset
    cases c <;> first | rfl | cases hreset

/-! ## Building a collector -/

/-- A configuration can be used if its names are given and intervals can be told from edges and
lanes. -/
theorem fault?_eq_none_iff {config : Config} :
    config.fault? = none ↔
      config.intervalTag ≠ "" ∧ config.beginAttribute ≠ "" ∧ config.idAttribute ≠ "" ∧
        config.intervalTag ≠ "edge" ∧ config.intervalTag ≠ "lane" := by
  unfold fault? Kind.ofName?
  split_ifs <;> simp_all

/-- A collector is made of a configuration just if the configuration is valid. -/
theorem ofConfig_eq_ok_iff {config : Config} {c : Collector} :
    Collector.ofConfig config = .ok c ↔ config.fault? = none ∧ c = .fresh config := by
  refine ⟨Collector.eq_fresh_of_ofConfig, ?_⟩
  rintro ⟨hvalid, rfl⟩
  rw [Collector.ofConfig, hvalid]

/-- What a list of changes builds. -/
structure Builds (changes : List Change) : Prop where
  /-- The configuration is the one that the base and the last values describe. -/
  describes_iff : ∀ config, Describes changes config ↔ config = ofChanges changes
  /-- Whether there is a collector depends on the names of that configuration alone. -/
  succeeds_iff : (∃ c, Collector.ofConfig (ofChanges changes) = .ok c) ↔
    let config := ofChanges changes
    config.intervalTag ≠ "" ∧ config.beginAttribute ≠ "" ∧ config.idAttribute ≠ "" ∧
      config.intervalTag ≠ "edge" ∧ config.intervalTag ≠ "lane"
  /-- The collector has that configuration and has received nothing. -/
  collector : ∀ c, Collector.ofConfig (ofChanges changes) = .ok c →
    c.config = ofChanges changes ∧ c.begins = #[] ∧ c.phase = .empty ∧ c.insideInterval = false ∧
      ∀ name : String, c.series[name]? =
        if name ∈ (ofChanges changes).attributes then some .empty else none
  /-- Neighbours that do not set the same part may change places. -/
  swap : ∀ before first second behind, changes = before ++ first :: second :: behind →
    first.Independent second →
      Collector.ofConfig (ofChanges changes) =
        Collector.ofConfig (ofChanges (before ++ second :: first :: behind))

/-- **Attributes accumulate, the last value of any other part stays, and only the last base
counts.** -/
theorem builds_ofChanges (changes : List Change) : Builds changes where
  describes_iff config := by
    constructor
    · exact fun h => h.eq (describes_ofChanges changes)
    · rintro rfl
      exact describes_ofChanges changes
  succeeds_iff := by
    simp only [ofConfig_eq_ok_iff, exists_and_left, exists_eq, and_true]
    exact fault?_eq_none_iff
  collector c h := by
    obtain ⟨-, rfl⟩ := ofConfig_eq_ok_iff.mp h
    exact ⟨rfl, rfl, rfl, rfl, Collector.getElem?_series_fresh (ofChanges changes)⟩
  swap before first second behind hsplit hindependent := by
    have hswap := change_change_of_independent hindependent (ofChanges before)
    rw [hsplit]
    simp only [ofChanges, List.foldl_append, List.foldl_cons] at hswap ⊢
    rw [hswap]

/-- The base holds one attribute and two others are added; the tag that was set before the base and
the first of the two behind it are gone. -/
example :
    (ofChanges [.setIntervalTag "step", .load (.ofAttributes ["speed"]), .setIntervalTag "slot",
      .addAttribute "left", .addAttributes ["entered", "left"], .setIntervalTag "hour"]) =
        { attributes := .ofList ["speed", "left", "entered"], intervalTag := "hour" } := by
  decide

end IntervalDump.Config
