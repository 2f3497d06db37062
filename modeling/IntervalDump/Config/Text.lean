import IntervalDump.Config
import IntervalDump.Json.Reader
import IntervalDump.Json.Value
/-!
# Configurations as text

A configuration is written as a JSON object with all its parts, the sets as arrays in their order.
When one is read, parts may be missing and keep their usual values, unknown members are passed over,
and the values may also stand in an array in the order of the parts.
-/

namespace IntervalDump.Config

open Json (Reader Value)

/-- A configuration as a JSON value. -/
def toValue (config : Config) : Value :=
  .object
    [(Field.attributes.key, .array (config.attributes.toList.map .text)),
     (Field.intervalTag.key, .text config.intervalTag),
     (Field.beginAttribute.key, .text config.beginAttribute),
     (Field.idAttribute.key, .text config.idAttribute),
     (Field.kinds.key, .array (config.kinds.toList.map fun kind => .text kind.name))]

/-- The text of a configuration. -/
def render (style : Json.Style) (config : Config) : String :=
  config.toValue.render style

/-- The parts of a configuration that were read. -/
structure Parts where
  attributes? : Option (List String) := none
  intervalTag? : Option String := none
  beginAttribute? : Option String := none
  idAttribute? : Option String := none
  kinds? : Option (List Kind) := none

namespace Parts

/-- The part was given. -/
def holds (found : Parts) : Field → Bool
  | .attributes => found.attributes?.isSome
  | .intervalTag => found.intervalTag?.isSome
  | .beginAttribute => found.beginAttribute?.isSome
  | .idAttribute => found.idAttribute?.isSome
  | .kinds => found.kinds?.isSome

/-- Reads one part. -/
def member (field : Field) (found : Parts) : Reader Parts :=
  match field with
  | .attributes => Reader.text.list.map fun names => { found with attributes? := some names }
  | .intervalTag => Reader.text.map fun tag => { found with intervalTag? := some tag }
  | .beginAttribute => Reader.text.map fun name => { found with beginAttribute? := some name }
  | .idAttribute => Reader.text.map fun name => { found with idAttribute? := some name }
  | .kinds =>
    (Reader.named Kind.ofName?).list.map fun kinds => { found with kinds? := some kinds }

/-- The configuration with the parts that were read, and the usual ones in the other places. -/
def toConfig (found : Parts) : Config :=
  let usual : Config := {}
  { attributes := (found.attributes?.map fun names => .ofList names).getD usual.attributes
    intervalTag := found.intervalTag?.getD usual.intervalTag
    beginAttribute := found.beginAttribute?.getD usual.beginAttribute
    idAttribute := found.idAttribute?.getD usual.idAttribute
    kinds := (found.kinds?.map .ofList).getD usual.kinds }

/-- The parts of a configuration as the members of a record. -/
def shape : Reader.Shape Field Parts :=
  ⟨Field.all, Field.key, holds, member⟩

end Parts

/-- The reader of a configuration, of which any part may be missing. -/
def reader : Reader Config :=
  (Reader.record Parts.shape {}).map Parts.toConfig

/-- Reads a configuration. -/
def parse (text : String) : Except Json.Fault Config :=
  reader.decode text.toList

end IntervalDump.Config
