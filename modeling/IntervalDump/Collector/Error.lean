import IntervalDump.Config
import IntervalDump.Markup.Fault
import IntervalDump.Reduction
/-!
# Errors of collecting

Why a dump cannot be collected, as causes, and their wording.
-/

namespace IntervalDump.Collector

/-- What a dump must not hold. -/
inductive Malformed where
  /-- Something was to be collected after series had been joined. -/
  | alreadyJoined
  | intervalWithoutBegin (tag key : String)
  | elementWithoutId (kind : Kind) (key : String)
  /-- A measurement stands before any interval. -/
  | outsideInterval (kind : Kind) (id tag : String)
  | notANumber (raw key element : String)
  deriving DecidableEq, Repr

def Malformed.message : Malformed → String
  | .alreadyJoined => "parse events received after series were joined"
  | .intervalWithoutBegin tag key => s!"<{tag}> without a '{key}' attribute"
  | .elementWithoutId kind key => s!"{kind.name} without a '{key}' attribute"
  | .outsideInterval kind id tag => s!"{kind.name} '{id}' appears before any <{tag}> element"
  | .notANumber raw key element =>
    s!"value '{raw}' of attribute '{key}' on element '{element}' is not a number"

/-- Why a step of a collector fails. -/
inductive Error where
  | malformed (cause : Malformed)
  /-- An attribute that was not requested. -/
  | unknownAttribute (name : String)
  | unknownReduction (unknown : Reduction.Unknown)
  | config (fault : Config.Fault)
  /-- The document could not be delivered. -/
  | document (fault : Markup.Fault)
  deriving DecidableEq, Repr

namespace Error

/-- The message that is shown for the error. -/
def message : Error → String
  | .malformed cause => s!"Malformed input: {cause.message}"
  | .unknownAttribute name =>
    s!"Unknown attribute '{name}': it was not requested when the reader was created"
  | .unknownReduction unknown => unknown.message
  | .config fault => s!"Invalid reader configuration: {fault.message}"
  | .document fault => s!"Event source error: {fault.message}"

/-- Whether the dump itself is at fault, in what it says. -/
def isMalformed : Error → Bool
  | .malformed _ => true
  | _ => false

end Error

end IntervalDump.Collector
