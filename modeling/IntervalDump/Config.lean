import Std.Data.ExtTreeSet
import IntervalDump.Kind
/-!
# Configurations

What is collected from a dump, and how its elements are recognized: the attributes that are
requested, the tag of the intervals, the names of the attributes that hold the begin of an interval
and the id of an element, and the kinds of elements whose attributes are collected. A configuration
is fixed once collecting begins.

`Config.fault?` tells why a configuration cannot be used; `none` says that it is valid.
-/

namespace IntervalDump

/-- What a collector is asked for, and how the names in a document are to be read. -/
structure Config where
  /-- The attributes that are requested. -/
  attributes : Std.ExtTreeSet String := ∅
  intervalTag : String := "interval"
  beginAttribute : String := "begin"
  idAttribute : String := "id"
  /-- Elements of other kinds are ignored. -/
  kinds : KindSet := .full
  deriving DecidableEq

namespace Config

/-- The parts of a configuration. -/
inductive Field where
  | attributes
  | intervalTag
  | beginAttribute
  | idAttribute
  | kinds
  deriving DecidableEq, Repr

namespace Field

/-- Every part, in the order in which they are written. -/
def all : List Field :=
  [.attributes, .intervalTag, .beginAttribute, .idAttribute, .kinds]

/-- The key of the field in the text of a configuration. -/
def key : Field → String
  | .attributes => "attributes"
  | .intervalTag => "interval_tag"
  | .beginAttribute => "begin_attribute"
  | .idAttribute => "id_attribute"
  | .kinds => "element_kinds"

end Field

/-- Why a configuration cannot be used. -/
inductive Fault where
  /-- A name that must be given is the empty text. -/
  | nameEmpty (field : Field)
  /-- Intervals cannot be told from elements of a kind. -/
  | tagCollides (tag : String)
  deriving DecidableEq, Repr

/-- The message that is shown for the fault. -/
def Fault.message : Fault → String
  | .nameEmpty field => s!"`{field.key}` must not be empty"
  | .tagCollides tag => s!"interval tag '{tag}' collides with an element kind"

/-- The configuration with these attributes and the usual names. -/
def ofAttributes (attributes : List String) : Config :=
  { attributes := .ofList attributes }

/-- Requests further attributes. -/
def addAttributes (names : List String) (config : Config) : Config :=
  { config with attributes := config.attributes.insertMany names }

/-- Adding names to a configuration keeps the ones that are there. -/
theorem mem_addAttributes {config : Config} {names : List String} {name : String} :
    name ∈ (config.addAttributes names).attributes ↔ name ∈ config.attributes ∨ name ∈ names := by
  rw [addAttributes, Std.ExtTreeSet.mem_insertMany_list, List.contains_iff_mem]

/-- The first reason why a configuration cannot be used. -/
def fault? (config : Config) : Option Fault :=
  if config.intervalTag = "" then some (.nameEmpty .intervalTag)
  else if config.beginAttribute = "" then some (.nameEmpty .beginAttribute)
  else if config.idAttribute = "" then some (.nameEmpty .idAttribute)
  else if (Kind.ofName? config.intervalTag).isSome then some (.tagCollides config.intervalTag)
  else none

/-- The usual configuration is valid, whatever attributes are asked for. -/
theorem fault?_ofAttributes (attributes : List String) : (ofAttributes attributes).fault? = none :=
  rfl

end Config

end IntervalDump
