import Mathlib.Data.List.Nodup
import Mathlib.Data.List.Perm.Basic
import Mathlib.Data.List.ReduceOption
import IntervalDump.Proofs.Config.RoundTrip
import IntervalDump.Proofs.Json.Passing
/-!
# Configurations given in part

An object may give any of the parts of a configuration, in any order, among members that are no part
of it. It is read as the usual configuration with these parts in the place of the usual ones, and an
object that gives a part twice is refused (`parse_partial`). The keys have to be texts: the grammar
admits the escape of a surrogate that stands alone, which is passed over in the value of a member
and refused in its key (`parse_partial_loneSurrogate`).

Members are described by what they give (`Gives`) and never by their text. Four facts carry the
result: a member that gives a part puts it among those that were read (`yields_part`), any other
member leaves them as they are, since its value is passed over (`yields_unknown`), a part that is
there already is refused before its value is looked at (`yields_held`), and so is a key that is the
text of nothing (`yields_noText`). Parts of different fields can be replaced in any order
(`Part.replace_comm`), so the order of the members does not matter.
-/

namespace IntervalDump

open Json

/-- A set with one kind more has this kind, and those that it had. -/
theorem KindSet.contains_insert (set : KindSet) (kind kind' : Kind) :
    (set.insert kind).contains kind' = (kind == kind' || set.contains kind') := by
  cases kind <;> cases kind' <;> rfl

/-- Inserting kinds gives a set that has them, and those that it had. -/
theorem KindSet.contains_foldl_insert (kinds : List Kind) (set : KindSet) (kind : Kind) :
    (kinds.foldl insert set).contains kind = (kinds.contains kind || set.contains kind) := by
  induction kinds generalizing set with
  | nil => rw [List.foldl_nil, List.contains_nil, Bool.false_or]
  | cons k kinds ih =>
    rw [List.foldl_cons, ih, contains_insert, List.contains_cons, BEq.comm, Bool.or_left_comm,
      Bool.or_assoc]

/-- A set is known by the kinds it has. -/
theorem KindSet.ext_contains {set set' : KindSet}
    (h : ∀ kind, set.contains kind = set'.contains kind) : set = set' := by
  obtain ⟨edge, lane⟩ := set
  obtain ⟨edge', lane'⟩ := set'
  obtain rfl : edge = edge' := h .edge
  obtain rfl : lane = lane' := h .lane
  rfl

/-- A set does not show in what order its kinds were listed, or how often. -/
theorem KindSet.ofList_congr {kinds kinds' : List Kind}
    (h : ∀ kind, kind ∈ kinds ↔ kind ∈ kinds') : ofList kinds = ofList kinds' := by
  apply ext_contains
  intro kind
  have hcontains : kinds.contains kind = kinds'.contains kind := by
    rw [Bool.eq_iff_iff, List.contains_iff_mem, List.contains_iff_mem]
    exact h kind
  rw [ofList, ofList, contains_foldl_insert, contains_foldl_insert, hcontains]

/-- A set of attributes does not show in what order its names were listed, or how often. -/
theorem attributes_ofList_congr {names names' : List String}
    (h : ∀ name, name ∈ names ↔ name ∈ names') :
    Std.ExtTreeSet.ofList names compare = Std.ExtTreeSet.ofList names' := by
  apply Std.ExtTreeSet.ext_mem
  intro name
  rw [Std.ExtTreeSet.mem_ofList, Std.ExtTreeSet.mem_ofList, List.contains_iff_mem,
    List.contains_iff_mem]
  exact h name

/-- The text of a kind: its name, or an object with the name as its only key. -/
inductive Kind.IsText (kind : Kind) : List Char → Prop where
  | name {s : List Char} (hs : IsString kind.name s) : IsText kind s
  | object {member : MemberText} {s : List Char} (hkey : Spells kind.name.toList member.key)
      (hvalue : member.value = "null".toList) (hs : Listing .curly [member.chars] s) : IsText kind s

/-- **The text of a kind is read as the kind**, in either of its forms. -/
theorem Kind.IsText.reads {kind : Kind} {s : List Char} (h : kind.IsText s) :
    (Reader.named Kind.ofName?).ReadsItem .square s kind := by
  have hname : Kind.ofName? kind.name = some kind := Kind.ofName?_eq_some.mpr rfl
  cases h with
  | name hs => exact ⟨hs.beginsItem .square, Reader.reads_named hname hs⟩
  | object hkey hvalue hs =>
    refine ⟨?_, Reader.reads_named_object hname hkey hvalue hs⟩
    obtain ⟨t, rfl⟩ := hs.exists_opening
    exact ⟨'\x7b', t, rfl, rfl, by decide⟩

namespace Config

/-! ## Parts -/

/-- A part of a configuration; what is kept as a set is given as a list. -/
inductive Part where
  | attributes (names : List String)
  | intervalTag (tag : String)
  | beginAttribute (name : String)
  | idAttribute (name : String)
  | kinds (items : List Kind)

namespace Part

/-- The part of a configuration that this is. -/
def field : Part → Field
  | attributes _ => .attributes
  | intervalTag _ => .intervalTag
  | beginAttribute _ => .beginAttribute
  | idAttribute _ => .idAttribute
  | kinds _ => .kinds

/-- The configuration with this part, and the others as they were. -/
def replace (config : Config) : Part → Config
  | attributes names => { config with attributes := .ofList names }
  | intervalTag tag => { config with intervalTag := tag }
  | beginAttribute name => { config with beginAttribute := name }
  | idAttribute name => { config with idAttribute := name }
  | kinds items => { config with kinds := .ofList items }

/-- The text of the part's value. -/
inductive IsText : Part → List Char → Prop where
  | attributes {names : List String} {items : List (List Char)} {s : List Char}
      (h : List.Forall₂ IsString names items) (hs : Listing .square items s) :
      IsText (.attributes names) s
  | intervalTag {tag : String} {s : List Char} (h : IsString tag s) : IsText (.intervalTag tag) s
  | beginAttribute {name : String} {s : List Char} (h : IsString name s) :
      IsText (.beginAttribute name) s
  | idAttribute {name : String} {s : List Char} (h : IsString name s) : IsText (.idAttribute name) s
  | kinds {kinds : List Kind} {items : List (List Char)} {s : List Char}
      (h : List.Forall₂ Kind.IsText kinds items) (hs : Listing .square items s) :
      IsText (.kinds kinds) s

/-- The same part: the lists that are given for a set have the same members. -/
inductive Same : Part → Part → Prop where
  | attributes {names names' : List String} (h : ∀ name, name ∈ names ↔ name ∈ names') :
      Same (.attributes names) (.attributes names')
  | kinds {kinds kinds' : List Kind} (h : ∀ kind, kind ∈ kinds ↔ kind ∈ kinds') :
      Same (.kinds kinds) (.kinds kinds')
  | refl (part : Part) : Same part part

/-- The same part has the same field. -/
theorem Same.field_eq {part part' : Part} (h : Same part part') : part.field = part'.field := by
  cases h <;> rfl

/-- The same part has the same effect. -/
theorem Same.replace_eq {part part' : Part} (h : Same part part') (config : Config) :
    part.replace config = part'.replace config := by
  cases h with
  | attributes h => simp only [replace, attributes_ofList_congr h]
  | kinds h => simp only [replace, KindSet.ofList_congr h]
  | refl => rfl

/-- Parts of different fields do not get in each other's way. -/
theorem replace_comm {part part' : Part} (h : part.field ≠ part'.field) (config : Config) :
    part'.replace (part.replace config) = part.replace (part'.replace config) := by
  cases part <;> cases part' <;> first | rfl | exact absurd rfl h

/-- The parts that were read, with this one. -/
def put (found : Parts) : Part → Parts
  | attributes names => { found with attributes? := some names }
  | intervalTag tag => { found with intervalTag? := some tag }
  | beginAttribute name => { found with beginAttribute? := some name }
  | idAttribute name => { found with idAttribute? := some name }
  | kinds items => { found with kinds? := some items }

/-- A part that was put shows in the configuration. -/
theorem toConfig_put (found : Parts) (part : Part) :
    (part.put found).toConfig = part.replace found.toConfig := by
  cases part <;> rfl

/-- Putting a part fills its own field and no other. -/
theorem holds_put (found : Parts) (part : Part) (field : Field) :
    (part.put found).holds field = (part.field == field || found.holds field) := by
  cases part <;> cases field <;> rfl

/-- A part that was among those that were put is there. -/
theorem holds_foldl_put {parts : List Part} {found : Parts} {field : Field}
    (h : found.holds field = true ∨ field ∈ parts.map Part.field) :
    (parts.foldl put found).holds field = true := by
  induction parts generalizing found with
  | nil => simpa using h
  | cons part parts ih =>
    rw [List.map_cons, List.mem_cons] at h
    apply ih
    rw [holds_put, Bool.or_eq_true, beq_iff_eq]
    tauto

/-- Parts that were put show in the configuration, in the order in which they were put. -/
theorem toConfig_foldl_put (parts : List Part) (found : Parts) :
    (parts.foldl put found).toConfig = parts.foldl replace found.toConfig := by
  induction parts generalizing found with
  | nil => rfl
  | cons part parts ih => rw [List.foldl_cons, ih, toConfig_put, List.foldl_cons]

/-- **The text of a part is read as the part.** -/
theorem IsText.reads {part : Part} {s : List Char} (h : part.IsText s) (found : Parts) :
    (Parts.shape.member part.field found).Reads s (part.put found) := by
  cases h with
  | attributes h hs =>
    have hitems : List.Forall₂ (Reader.text.ReadsItem .square) _ _ :=
      h.flip.imp fun _ _ hitem => ⟨hitem.beginsItem .square, Reader.reads_string hitem⟩
    exact (Reader.reads_list hs hitems).map _
  | intervalTag h => exact (Reader.reads_string h).map _
  | beginAttribute h => exact (Reader.reads_string h).map _
  | idAttribute h => exact (Reader.reads_string h).map _
  | kinds h hs =>
    have hitems := h.flip.imp fun _ _ hitem => hitem.reads
    exact (Reader.reads_list hs hitems).map _

end Part

/-! ## Members -/

/-- The member gives the part, or no part at all: then its key is another text, and its value may be
any JSON value. A key is read before it is known whether it is that of a part, so it has to be a
text; in the value, surrogates may stand alone. -/
inductive Gives : Option Part → MemberText → Prop where
  | part {part : Part} {member : MemberText} (hkey : Spells part.field.key.toList member.key)
      (hvalue : part.IsText member.value) : Gives (some part) member
  | unknown {key : String} {member : MemberText} (hkey : Spells key.toList member.key)
      (hunknown : ∀ field : Field, field.key ≠ key) (hvalue : IsJson member.value) :
      Gives none member

/-- A key that is none of the fields' is not found among them. -/
theorem field?_eq_none {key : String} (h : ∀ field : Field, field.key ≠ key) :
    Parts.shape.field? key = none := by
  apply List.find?_eq_none.mpr
  intro field _ hfound
  exact h field (eq_of_beq hfound)

section Member

variable {member : MemberText} {members : List MemberText} {found : Parts}

/-- A part that is new is read into its field. -/
theorem yields_part {part : Part} (hkey : Spells part.field.key.toList member.key)
    (hvalue : part.IsText member.value) (hnew : found.holds part.field = false)
    {result : Except Json.Fault Parts} (h : Parts.shape.Yields (part.put found) members result) :
    Parts.shape.Yields found (member :: members) result := by
  refine .next ?_ h
  intro rest hrest
  exact Reader.Shape.runMember_known hkey (Parts.field?_key part.field) hnew (hvalue.reads found)
    hrest

/-- Any other member is passed over. -/
theorem yields_unknown {key : String} (hkey : Spells key.toList member.key)
    (hunknown : ∀ field : Field, field.key ≠ key) (hvalue : IsJson member.value)
    {result : Except Json.Fault Parts} (h : Parts.shape.Yields found members result) :
    Parts.shape.Yields found (member :: members) result := by
  refine .next ?_ h
  intro rest hrest
  exact Reader.Shape.runMember_unknown hkey (field?_eq_none hunknown)
    (hvalue.pass_nil member.isBlank_behind hrest)

/-- A part that is there already is refused, whatever its value is and whatever is behind it. -/
theorem yields_held {field : Field} (hkey : Spells field.key.toList member.key)
    (hholds : found.holds field = true) (members : List MemberText) :
    Parts.shape.Yields found (member :: members) (.error .shape) := by
  apply Reader.Shape.Yields.fault members
  intro rest _
  exact Reader.Shape.runMember_again hkey (Parts.field?_key field) hholds rest

/-- A key that is not the text of anything is refused, whatever was read before it. -/
theorem yields_noText (hkey : IsContent member.key) (hnone : ∀ key, ¬ Spells key member.key)
    (members : List MemberText) :
    Parts.shape.Yields found (member :: members) (.error .grammar) := by
  apply Reader.Shape.Yields.fault members
  intro rest _
  exact Reader.Shape.runMember_noText hkey hnone rest

end Member

section Members

variable {given : List (Option Part)} {members : List MemberText} {found : Parts}
  (h : List.Forall₂ Gives given members)
include h

/-- Parts of different fields are read one after the other, and what is behind them is read from
there. -/
theorem yields_append (hfields : (given.reduceOption.map Part.field).Nodup)
    (hnew : ∀ part ∈ given.reduceOption, found.holds part.field = false)
    {behind : List MemberText} {result : Except Json.Fault Parts}
    (hbehind : Parts.shape.Yields (given.reduceOption.foldl Part.put found) behind result) :
    Parts.shape.Yields found (members ++ behind) result := by
  -- the parts that were found are general, since each member puts its own among them
  induction h generalizing found with
  | nil => exact hbehind
  | cons hgives h ih =>
    rw [List.cons_append]
    cases hgives with
    | @part part member hkey hvalue =>
      rw [List.reduceOption_cons_of_some] at hfields hnew hbehind
      rw [List.map_cons, List.nodup_cons] at hfields
      obtain ⟨hnot, hfields⟩ := hfields
      obtain ⟨hpart, hrest⟩ := List.forall_mem_cons.mp hnew
      apply yields_part hkey hvalue hpart
      refine ih hfields ?_ hbehind
      intro other hother
      -- a later part may be read unless its field was just filled, and no field comes twice
      have hne : part.field ≠ other.field := by
        intro heq
        exact hnot (heq ▸ List.mem_map_of_mem hother)
      rw [Part.holds_put, hrest other hother, Bool.or_false]
      exact beq_eq_false_iff_ne.mpr hne
    | unknown hkey hunknown hvalue =>
      rw [List.reduceOption_cons_of_none] at hfields hnew hbehind
      exact yields_unknown hkey hunknown hvalue (ih hfields hnew hbehind)

/-- What an object comes to whose members go on behind these. -/
theorem parse_append (hfields : (given.reduceOption.map Part.field).Nodup)
    {behind : List MemberText} {result : Except Json.Fault Parts}
    (hbehind : Parts.shape.Yields (given.reduceOption.foldl Part.put {}) behind result)
    {text : String} (htext : IsObject (members ++ behind) text.toList) :
    parse text = result.map Parts.toConfig := by
  have hyields : Parts.shape.Yields {} (members ++ behind) result :=
    yields_append h hfields (fun part _ => by cases part <;> rfl) hbehind
  rw [parse, reader, Reader.decode_map, Reader.Shape.decode_object htext hyields]

/-- **What an object comes to** is the usual configuration with its parts, in the order of the
object. -/
theorem parse_eq_foldl (hfields : (given.reduceOption.map Part.field).Nodup) {text : String}
    (htext : IsObject members text.toList) :
    parse text = .ok (given.reduceOption.foldl Part.replace {}) := by
  rw [← List.append_nil members] at htext
  rw [parse_append h hfields (.nil _) htext]
  exact congrArg Except.ok (Part.toConfig_foldl_put given.reduceOption {})

end Members

/-! ## Order -/

/-- The same parts, in any order. -/
def SameParts (parts parts' : List Part) : Prop :=
  ∃ middle, parts.Perm middle ∧ List.Forall₂ Part.Same middle parts'

/-- Parts that are the same one by one have the same effect. -/
theorem foldl_replace_same {parts parts' : List Part} (h : List.Forall₂ Part.Same parts parts')
    (config : Config) : parts.foldl Part.replace config = parts'.foldl Part.replace config := by
  induction h generalizing config with
  | nil => rfl
  | cons hpart h ih => rw [List.foldl_cons, List.foldl_cons, hpart.replace_eq, ih]

/-- Parts that are the same one by one have the same fields. -/
theorem map_field_same {parts parts' : List Part} (h : List.Forall₂ Part.Same parts parts') :
    parts.map Part.field = parts'.map Part.field := by
  induction h with
  | nil => rfl
  | cons hpart h ih => rw [List.map_cons, List.map_cons, hpart.field_eq, ih]

section SameParts

variable {parts parts' : List Part} (hsame : SameParts parts parts')
  (hfields : (parts.map Part.field).Nodup)
include hsame hfields

/-- In any order, the fields are still different. -/
theorem SameParts.nodup : (parts'.map Part.field).Nodup := by
  obtain ⟨middle, hperm, hmiddle⟩ := hsame
  rw [← map_field_same hmiddle]
  exact (hperm.map Part.field).nodup_iff.mp hfields

/-- In any order, the effect is the same. -/
theorem SameParts.foldl_replace (config : Config) :
    parts.foldl Part.replace config = parts'.foldl Part.replace config := by
  obtain ⟨middle, hperm, hmiddle⟩ := hsame
  rw [← foldl_replace_same hmiddle]
  apply hperm.foldl_eq'
  intro part hpart other hother config
  by_cases heq : part.field = other.field
  · rw [List.inj_on_of_nodup_map hfields hpart hother heq]
  · exact Part.replace_comm heq config

end SameParts

/-! ## Objects in part -/

/-- **Partial objects.** An object gives parts of different fields, among members that are no parts.
It is read as the usual configuration with these parts replaced. An object that gives the same
parts, in whatever order and among whatever other members, is read the same way. If one of the
fields comes again, then the object is refused, whatever the value is there and whatever is behind
it. So it is if a key comes that is not the text of anything. -/
theorem parse_partial {given : List (Option Part)} {members : List MemberText}
    (h : List.Forall₂ Gives given members)
    (hfields : (given.reduceOption.map Part.field).Nodup) :
    (∀ text : String, IsObject members text.toList →
      parse text = .ok (given.reduceOption.foldl Part.replace {})) ∧
    (∀ (given' : List (Option Part)) (members' : List MemberText) (text text' : String),
      List.Forall₂ Gives given' members' → SameParts given.reduceOption given'.reduceOption →
      IsObject members text.toList → IsObject members' text'.toList →
      parse text' = parse text) ∧
    (∀ (field : Field) (again : MemberText) (behind : List MemberText) (text : String),
      field ∈ given.reduceOption.map Part.field → Spells field.key.toList again.key →
      IsObject (members ++ again :: behind) text.toList → parse text = .error .shape) ∧
    (∀ (member : MemberText) (behind : List MemberText) (text : String),
      IsContent member.key → (∀ key, ¬ Spells key member.key) →
      IsObject (members ++ member :: behind) text.toList → parse text = .error .grammar) := by
  refine ⟨fun text htext => parse_eq_foldl h hfields htext, ?_, ?_, ?_⟩
  · intro given' members' text text' h' hsame htext htext'
    rw [parse_eq_foldl h hfields htext, parse_eq_foldl h' (hsame.nodup hfields) htext',
      hsame.foldl_replace hfields]
  · intro field again behind text hfield hkey htext
    have hheld : (given.reduceOption.foldl Part.put {}).holds field = true :=
      Part.holds_foldl_put (.inr hfield)
    rw [parse_append h hfields (yields_held hkey hheld behind) htext]
    rfl
  · intro member behind text hkey hnone htext
    rw [parse_append h hfields (yields_noText hkey hnone behind) htext]
    rfl

/-- A high surrogate alone may stand between quotation marks, and is the text of nothing. -/
theorem isContent_loneSurrogate :
    IsContent "\\ud800".toList ∧ ∀ text, ¬ Spells text "\\ud800".toList :=
  have hzero : IsHexDigit '0' 0 := .lower (show 0 < 16 by decide)
  have hunit : IsUnit ['d', '8', '0', '0'] 0xD800 :=
    .digits (.lower (show 13 < 16 by decide)) (.lower (show 8 < 16 by decide)) hzero hzero
  have hrefused : readText [] ("\\ud800".toList ++ ['"']) = .error .grammar := by decide
  ⟨.unit hunit .nil, not_spells_of_readText hrefused⟩

/-- A key with an escape, a member that is no part, a name that comes twice, and a key that is the
text of nothing. -/
theorem parse_partial_escapedKey :
    parse "\x7b\"x\":[true],\"\\u0061ttributes\" :[\"a\",\"a\"]\x7d" =
        .ok { attributes := .ofList ["a", "a"] } ∧
      parse "\x7b\"attributes\":[\"a\"]\x7d" =
        parse "\x7b\"x\":[true],\"\\u0061ttributes\" :[\"a\",\"a\"]\x7d" ∧
      parse "\x7b\"x\":[true],\"\\u0061ttributes\" :[\"a\",\"a\"],\"attributes\":7\x7d" =
        .error .shape ∧
      parse "\x7b\"x\":[true],\"\\u0061ttributes\" :[\"a\",\"a\"],\"\\ud800\":7\x7d" =
        .error .grammar := by
  let other : MemberText := ⟨['x'], [], [], "[true]".toList, .nil, .nil⟩
  let names : MemberText :=
    ⟨"\\u0061ttributes".toList, [' '], [], "[\"a\",\"a\"]".toList, by decide, .nil⟩
  let name : MemberText := ⟨"attributes".toList, [], [], "[\"a\"]".toList, .nil, .nil⟩
  let again : MemberText := ⟨"attributes".toList, [], [], ['7'], .nil, .nil⟩
  let noText : MemberText := ⟨"\\ud800".toList, [], [], ['7'], .nil, .nil⟩
  have ha : IsString "a" (Quoted.chars "a") := Quoted.isString_chars "a"
  have hother : Gives none other := by
    have htrue : Listing .square ["true".toList] other.value := .items .nil (.close .nil)
    refine @Gives.unknown "x" other (spells_encoded ['x']) (by rintro ⟨⟩ <;> decide) ?_
    exact .array htrue (List.forall_mem_singleton.mpr .true)
  have hnames : Gives (some (.attributes ["a", "a"])) names := by
    have hkey : Spells "attributes".toList names.key :=
      .cons (.unit (isUnit_hexDigit (by decide))) (spells_encoded "ttributes".toList)
    refine .part hkey (.attributes (.cons ha (.cons ha .nil)) ?_)
    exact .items .nil (.item .nil .nil (.close .nil))
  have hname : Gives (some (.attributes ["a"])) name := by
    refine .part (spells_encoded "attributes".toList) (.attributes (.cons ha .nil) ?_)
    exact .items .nil (.close .nil)
  have hset : SameParts [.attributes ["a", "a"]] [.attributes ["a"]] :=
    ⟨_, .refl _, .cons (.attributes (by simp)) .nil⟩
  have hobject : IsObject [other, names] _ :=
    .blanks .nil (.items .nil (.item .nil .nil (.close .nil))) .nil
  have hobject' : IsObject [name] _ := .blanks .nil (.items .nil (.close .nil)) .nil
  have hthree (third : MemberText) : IsObject [other, names, third] _ :=
    .blanks .nil (.items .nil (.item .nil .nil (.item .nil .nil (.close .nil)))) .nil
  obtain ⟨hparse, hsame, hagain, hnoText⟩ :=
    parse_partial (.cons hother (.cons hnames .nil)) (by decide)
  obtain ⟨hcontent, hnone⟩ := isContent_loneSurrogate
  refine ⟨hparse _ hobject, ?_, ?_, ?_⟩
  · exact hsame [some (.attributes ["a"])] [name] _ _ (.cons hname .nil) hset hobject hobject'
  · exact hagain .attributes again [] _ (by decide) (spells_encoded "attributes".toList)
      (hthree again)
  · exact hnoText noText [] _ hcontent hnone (hthree noText)

/-- **A member may be well formed and still be refused**: the text is JSON, and its only member is
no part of a configuration, but the key is the text of nothing. In the value of such a member it
would be passed over. -/
theorem parse_partial_loneSurrogate :
    let member : MemberText := ⟨"\\ud800".toList, [], [], "null".toList, .nil, .nil⟩
    let text := "\x7b\"\\ud800\":null\x7d"
    IsObject [member] text.toList ∧ IsJson text.toList ∧ IsContent member.key ∧
      (∀ field : Field, ¬ Spells field.key.toList member.key) ∧ IsJson member.value ∧
      parse text = .error .grammar ∧ parse "\x7b\"x\":\"\\ud800\"\x7d" = .ok {} := by
  intro member text
  obtain ⟨hcontent, hnone⟩ := isContent_loneSurrogate
  have hlisting : Listing .curly ([member].map MemberText.chars) _ := .items .nil (.close .nil)
  have hobject : IsObject [member] _ := .blanks .nil hlisting .nil
  have hjson : IsJson _ := .object hlisting (List.forall_mem_singleton.mpr hcontent)
    (List.forall_mem_singleton.mpr .null)
  have htext : text.toList = '\x7b' :: (member.chars ++ ['\x7d']) := by decide
  rw [htext]
  refine ⟨hobject, hjson, hcontent, fun field => hnone _, .null, ?_, ?_⟩
  · decide +kernel
  · decide +kernel

end Config

end IntervalDump
