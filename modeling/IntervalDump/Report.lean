import IntervalDump.Collector
import IntervalDump.Json.Value
/-!
# Reports

What a collector holds, as a JSON value: the begins of the intervals, and for every requested
attribute its snapshots, each an object of the values by element id. Attributes and ids stand in
their order.
-/

namespace IntervalDump.Report

open Json (Value)

/-- The values of a snapshot under their ids. -/
def ofSnapshot (snapshot : Snapshot) : Value :=
  .object (snapshot.toList.map fun (id, value) => (id, .number value))

/-- The snapshots of a series in their order. -/
def ofSeries (series : Series) : Value :=
  .array (series.toList.map ofSnapshot)

/-- The begins of the intervals and the series. -/
def ofCollector (c : Collector) : Value :=
  .object
    [("interval_begins", .array (c.begins.toList.map .number)),
     ("series", .object (c.series.toList.map fun (name, series) => (name, ofSeries series)))]

/-- The text of a report. -/
def render (style : Json.Style) (c : Collector) : String :=
  (ofCollector c).render style

end IntervalDump.Report
