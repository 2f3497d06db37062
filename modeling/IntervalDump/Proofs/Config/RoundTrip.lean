import IntervalDump.Config.Text
import IntervalDump.Proofs.Json.Printed
/-!
# Configurations survive their text

A configuration that is written and read again is the same configuration, in both layouts and
whatever characters its names hold (`parse_render`). It need not be a valid one. The members are
read in the order in which they are written, and each of them fills its own part (`Holding`); that a
set is rebuilt from the array of its members is a fact about sets.
-/

namespace IntervalDump

open Json

/-- A set of kinds is what its list is the list of. -/
theorem KindSet.ofList_toList (set : KindSet) : KindSet.ofList set.toList = set := by
  obtain ⟨edge, lane⟩ := set
  cases edge <;> cases lane <;> rfl

/-- A set of attributes is what its list is the list of. -/
theorem attributes_ofList_toList (names : Std.ExtTreeSet String) :
    Std.ExtTreeSet.ofList names.toList = names := by
  apply Std.ExtTreeSet.ext_mem
  intro name
  rw [Std.ExtTreeSet.mem_ofList, List.contains_iff_mem, Std.ExtTreeSet.mem_toList]

namespace Config

/-- Names that were printed are read back. -/
theorem reads_names {names : List String} {s : List Char}
    (h : IsText (.array (names.map .text)) s) : Reader.text.list.Reads s names :=
  h.reads_list fun _ _ hs => ⟨hs.beginsItem_text .square, hs.reads_text⟩

/-- Kinds that were printed are read back. -/
theorem reads_kinds {kinds : List Kind} {s : List Char}
    (h : IsText (.array (kinds.map fun kind => .text kind.name)) s) :
    (Reader.named Kind.ofName?).list.Reads s kinds := by
  refine h.reads_list fun kind s hs => ⟨hs.beginsItem_text .square, ?_⟩
  cases hs
  exact Reader.reads_named (Kind.ofName?_eq_some.mpr rfl) (Quoted.isString_chars kind.name)

namespace Parts

/-- Every part of the configuration. -/
def ofConfig (config : Config) : Parts :=
  ⟨config.attributes.toList, config.intervalTag, config.beginAttribute, config.idAttribute,
    config.kinds.toList⟩

/-- A configuration is made of all its parts. -/
theorem toConfig_ofConfig (config : Config) : (ofConfig config).toConfig = config := by
  simp only [toConfig, ofConfig, Option.map_some, Option.getD_some, attributes_ofList_toList,
    KindSet.ofList_toList]

end Parts

namespace Parts

/-- A field is found under its own key. -/
theorem field?_key (field : Field) : shape.field? (shape.key field) = some field := by
  cases field <;> rfl

/-- The members fill one part after the other. -/
theorem fills_ofConfig {config : Config} {texts : List (List Char)}
    (h : AreMembers
      [(Field.attributes.key, .array (config.attributes.toList.map .text)),
       (Field.intervalTag.key, .text config.intervalTag),
       (Field.beginAttribute.key, .text config.beginAttribute),
       (Field.idAttribute.key, .text config.idAttribute),
       (Field.kinds.key, .array (config.kinds.toList.map fun kind => .text kind.name))] texts) :
    shape.Fills {} texts (ofConfig config) := by
  cases h with | cons hattributes hs1 h =>
  cases h with | cons htag hs2 h =>
  cases h with | cons hbegin hs3 h =>
  cases h with | cons hid hs4 h =>
  cases h with | cons hkinds hs5 h =>
  cases h
  exact .cons (field?_key .attributes) rfl ((reads_names hattributes).map _) hs1 <|
    .cons (field?_key .intervalTag) rfl (htag.reads_text.map _) hs2 <|
    .cons (field?_key .beginAttribute) rfl (hbegin.reads_text.map _) hs3 <|
    .cons (field?_key .idAttribute) rfl (hid.reads_text.map _) hs4 <|
    .cons (field?_key .kinds) rfl ((reads_kinds hkinds).map _) hs5 (.nil _)

end Parts

/-- **A configuration that was printed is read back**, whatever the layout. -/
theorem reads_toValue {config : Config} {s : List Char} (h : IsText config.toValue s) :
    reader.Reads s config := by
  cases h with
  | object h hs =>
    have hreads := (Reader.reads_record hs (Parts.fills_ofConfig h)).map Parts.toConfig
    rwa [Parts.toConfig_ofConfig] at hreads

/-- **A configuration that is written is read back.** -/
theorem parse_render (style : Style) (config : Config) :
    parse (config.render style) = .ok config :=
  (reads_toValue (config.toValue.isText_render style)).decode

end Config

end IntervalDump
