import IntervalDump.Aggregate
import IntervalDump.Collector.Error
import IntervalDump.Decimal.Numeral
import IntervalDump.Event.Handler
import IntervalDump.Text.Blank
/-!
# Collecting series from events

A `Collector` takes the events of dumps and keeps a series for every requested attribute. The start
of an interval appends an empty snapshot to every series, so all series and `begins` stay aligned;
the start of an edge or lane fills the latest snapshots with the attributes it carries. Series can
then be joined; a collector with a joined series takes no further measurements.

Names are recognized by their local names alone. A step that fails keeps the part of its effect
that came before the failure.
-/

namespace IntervalDump

/-- How far a collector is. -/
inductive Phase where
  /-- Nothing was received yet. -/
  | empty
  /-- A document or an interval was begun. -/
  | parsing
  /-- The end of a document was received. -/
  | parsed
  /-- At least one series was joined. -/
  | reduced
  deriving DecidableEq, Repr

def Phase.name : Phase → String
  | .empty => "Empty"
  | .parsing => "Parsing"
  | .parsed => "Parsed"
  | .reduced => "Reduced"

/-- What was collected of the documents so far. -/
structure Collector where
  config : Config
  /-- A series for each requested attribute. -/
  series : Std.ExtTreeMap String Series
  /-- The begins of the intervals, in the order of the document. -/
  begins : Array Float
  phase : Phase
  /-- An interval element was opened and no interval element was closed since. -/
  insideInterval : Bool

namespace Collector

/-- A numeral, blanks around it allowed. -/
def readNumber? (raw : String) : Option Float :=
  (Numeral.read? (Text.trim raw.toList)).map Numeral.toFloat

/-- A collector that has received nothing. -/
def fresh (config : Config) : Collector where
  config := config
  series := .ofList (config.attributes.toList.map fun name => (name, Series.empty))
  begins := #[]
  phase := .empty
  insideInterval := false

/-- A collector for a configuration, which must be valid. -/
def ofConfig (config : Config) : Except Error Collector :=
  match config.fault? with
  | some fault => .error (.config fault)
  | none => .ok (fresh config)

/-- A collector for these attributes, with the usual names. -/
def ofAttributes (attributes : List String) : Collector :=
  fresh (.ofAttributes attributes)

/-! ## What a collector holds -/

/-- The requested attributes, in their order. -/
def attributes (c : Collector) : List String :=
  c.series.keys

/-- There is a series for the attribute. -/
def isRequested (c : Collector) (name : String) : Bool :=
  c.series.contains name

/-- How many intervals were begun. -/
def intervalCount (c : Collector) : Nat :=
  c.begins.size

/-- The snapshots of a requested attribute. -/
def get (c : Collector) (name : String) : Except Error (List Snapshot) :=
  match c.series[name]? with
  | some series => .ok series.toList
  | none => .error (.unknownAttribute name)

/-! ## Measurements -/

/-- The notice that an interval begins before the one opened last. -/
def earlierNotice (c : Collector) (begin : Float) : Array Notice :=
  match c.begins.back? with
  | some previous => if begin < previous then #[.beginEarlier begin previous] else #[]
  | none => #[]

/-- Opens an interval: every series gets an empty snapshot. -/
def openInterval (begin : Float) (c : Collector) : Outcome Error Collector :=
  if c.phase = .reduced then .fail (.malformed .alreadyJoined) c
  else
    { state :=
        { c with
          phase := .parsing
          begins := c.begins.push begin
          series := c.series.map fun _ series => series.extend }
      notices := (c.earlierNotice begin).push (.intervalOpened (c.begins.size + 1) begin)
      error? := none }

/-- Takes one attribute of an element into the latest snapshot, if it is requested. -/
def recordAttribute (kind : Kind) (id : String) (a : Attribute) (c : Collector) :
    Outcome Error Collector :=
  let name := a.name.localName
  match c.series[name]? with
  | none => .ok c
  | some series =>
    if series.isEmpty then .fail (.malformed (.outsideInterval kind id c.config.intervalTag)) c
    else
      match readNumber? a.value with
      | none => .fail (.malformed (.notANumber a.value name id)) c
      | some value => .ok { c with series := c.series.insert name (series.record id value) }

/-- Takes the attributes of an element. Elements of other kinds than the selected ones are
ignored. -/
def recordElement (kind : Kind) (id : String) (attributes : List Attribute) (c : Collector) :
    Outcome Error Collector :=
  if c.phase = .reduced then .fail (.malformed .alreadyJoined) c
  else if !c.config.kinds.contains kind then .ok c
  else
    (Outcome.each (recordAttribute kind id) attributes c).andThen
      (Outcome.tell (.elementRecorded kind id))

/-! ## Joining -/

/-- Replaces the series of an attribute by its aggregate. -/
def joinSeries (how : Reduction) (name : String) (c : Collector) : Outcome Error Collector :=
  match c.series[name]? with
  | none => .ok c
  | some series =>
    let joined := aggregate how series.toList
    (Outcome.tell (.seriesJoined name series.length how joined.size)
      { c with series := c.series.insert name (.single joined) })

/-- Joins the series of these attributes. All names are looked up before any series is touched. -/
def join (names : List String) (how : Reduction) (c : Collector) : Outcome Error Collector :=
  match names.find? fun name => !c.isRequested name with
  | some name => .fail (.unknownAttribute name) c
  | none =>
    (Outcome.each (joinSeries how) names c).map fun c =>
      if names.isEmpty then c else { c with phase := .reduced }

/-- As `join`, the reduction given by its name. -/
def joinNamed (names : List String) (how : String) (c : Collector) : Outcome Error Collector :=
  match Reduction.parse how with
  | .error unknown => .fail (.unknownReduction unknown) c
  | .ok how => c.join names how

/-! ## Events -/

/-- A document begins, unless the series were joined already. -/
def startDocument (c : Collector) : Outcome Error Collector :=
  if c.phase = .reduced then .fail (.malformed .alreadyJoined) c
  else .ok { c with phase := .parsing }

/-- A document ends. Behind a join this does nothing. -/
def endDocument (c : Collector) : Outcome Error Collector :=
  .tell (.documentRead c.begins.size c.series.size)
    (if c.phase = .reduced then c else { c with phase := .parsed })

/-- The start of an interval element. -/
def startInterval (attributes : List Attribute) (c : Collector) : Outcome Error Collector :=
  let tag := c.config.intervalTag
  let key := c.config.beginAttribute
  match Attribute.find? attributes key with
  | none => .fail (.malformed (.intervalWithoutBegin tag key)) c
  | some raw =>
    match readNumber? raw with
    | none => .fail (.malformed (.notANumber raw key tag)) c
    | some begin =>
      (Outcome.tellIf c.insideInterval (.intervalNested tag begin)
        { c with insideInterval := true }).andThen (openInterval begin)

/-- The start of an edge or lane. It needs an id only if it carries a requested attribute. -/
def startMeasured (kind : Kind) (attributes : List Attribute) (c : Collector) :
    Outcome Error Collector :=
  if attributes.any fun a => c.isRequested a.name.localName then
    match Attribute.find? attributes c.config.idAttribute with
    | none => .fail (.malformed (.elementWithoutId kind c.config.idAttribute)) c
    | some id => c.recordElement kind id attributes
  else .ok c

/-- An element starts: an interval, a measured element, or one that does not matter. -/
def startElement (name : Name) (attributes : List Attribute) (c : Collector) :
    Outcome Error Collector :=
  if name.isNamed c.config.intervalTag then c.startInterval attributes
  else
    match Kind.ofName? name.localName with
    | none => .ok c
    | some kind => c.startMeasured kind attributes

/-- An element ends; only that of an interval matters. -/
def endElement (name : Name) (c : Collector) : Outcome Error Collector :=
  .ok (if name.isNamed c.config.intervalTag then { c with insideInterval := false } else c)

/-- A collector as a handler of events. -/
def handler : Handler Error Collector where
  startDocument := startDocument
  endDocument := endDocument
  startElement := startElement
  endElement := endElement
  fault := .document

end Collector

end IntervalDump
