import IntervalDump.Decimal.Layout
import IntervalDump.Kind
import IntervalDump.Reduction
/-!
# Notices

What the library tells while it works, as causes: which interval was opened, which one looks out of
order, what was joined. Each notice has a level and a text.
-/

namespace IntervalDump

/-- How much a notice matters. -/
inductive Level where
  | trace
  | debug
  | info
  | warn
  | error
  deriving DecidableEq, Repr

def Level.name : Level → String
  | .trace => "TRACE"
  | .debug => "DEBUG"
  | .info => "INFO"
  | .warn => "WARN"
  | .error => "ERROR"

/-- What is told about a run, besides its result. -/
inductive Notice where
  /-- An interval begins before the interval opened before it. -/
  | beginEarlier (begin previous : Float)
  /-- An interval element was opened inside another one. -/
  | intervalNested (tag : String) (begin : Float)
  | intervalOpened (number : Nat) (begin : Float)
  | elementRecorded (kind : Kind) (id : String)
  | seriesJoined (name : String) (intervals : Nat) (how : Reduction) (elements : Nat)
  /-- The end of a document was reached. -/
  | documentRead (intervals attributes : Nat)
  /-- A document was tokenized to its end. -/
  | elementsDelivered (elements : Nat)
  | dumpOpened (path : String)
  | configOpened (path : String)
  | commandFailed (message : String)

namespace Notice

/-- Numbers in notices are written without exponents, and whole ones without a point. -/
def numberLayout : Layout :=
  ⟨.away, fun _ => true, false⟩

/-- A number as it is shown in a notice. -/
def numberText (x : Float) : String :=
  if x.isNaN then "NaN"
  else if x.isInf then (if x < 0 then "-inf" else "inf")
  else numberLayout.text x

def level : Notice → Level
  | .beginEarlier .. => .warn
  | .intervalNested .. => .warn
  | .intervalOpened .. => .debug
  | .elementRecorded .. => .trace
  | .seriesJoined .. => .debug
  | .documentRead .. => .debug
  | .elementsDelivered .. => .trace
  | .dumpOpened .. => .info
  | .configOpened .. => .debug
  | .commandFailed .. => .error

/-- The text of the notice. -/
def text : Notice → String
  | .beginEarlier begin previous =>
    s!"Interval begin {numberText begin} is earlier than the previous interval ({numberText previous})"
  | .intervalNested tag begin =>
    s!"<{tag}> at {numberText begin} opened before the previous one was closed"
  | .intervalOpened number begin => s!"Opened interval #{number} at {numberText begin}"
  | .elementRecorded kind id => s!"Recorded {kind.name} '{id}'"
  | .seriesJoined name intervals how elements =>
    s!"Joined '{name}' over {intervals} intervals ({how.name}): {elements} elements"
  | .documentRead intervals attributes =>
    s!"Dump read: {intervals} intervals, {attributes} attributes"
  | .elementsDelivered elements => s!"XML driver delivered {elements} element events"
  | .dumpOpened path => s!"Reading dump from {path}"
  | .configOpened path => s!"Loading reader configuration from {path}"
  | .commandFailed message => message

end Notice

end IntervalDump
