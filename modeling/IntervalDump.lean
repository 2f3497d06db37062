import IntervalDump.Aggregate
import IntervalDump.Collector
import IntervalDump.Collector.Error
import IntervalDump.CommandLine
import IntervalDump.CommandLine.Options
import IntervalDump.Config
import IntervalDump.Config.Change
import IntervalDump.Config.Text
import IntervalDump.Decimal.Digits
import IntervalDump.Decimal.Layout
import IntervalDump.Decimal.Numeral
import IntervalDump.Decimal.Shortest
import IntervalDump.Delivery
import IntervalDump.Dump
import IntervalDump.Event
import IntervalDump.Event.Handler
import IntervalDump.Json.Lexical
import IntervalDump.Json.Quoted
import IntervalDump.Json.Reader
import IntervalDump.Json.Skip
import IntervalDump.Json.Value
import IntervalDump.Kind
import IntervalDump.Main
import IntervalDump.Markup.Byte
import IntervalDump.Markup.Doctype
import IntervalDump.Markup.Fault
import IntervalDump.Markup.Lexer
import IntervalDump.Markup.RawAttribute
import IntervalDump.Markup.Reference
import IntervalDump.Markup.Tag
import IntervalDump.Notice
import IntervalDump.Outcome
import IntervalDump.Reduction
import IntervalDump.Report
import IntervalDump.Snapshot
import IntervalDump.Source
import IntervalDump.Text.Blank
import IntervalDump.Text.Plain
import IntervalDump.Text.Utf8
import IntervalDump.Proofs.Collector.Step
import IntervalDump.Proofs.Collector.Collected
import IntervalDump.Proofs.Collector.History
import IntervalDump.Proofs.Collector.Replay
import IntervalDump.Proofs.Collector.Refusal
import IntervalDump.Proofs.Collector.Unselected
import IntervalDump.Proofs.Collector.Reduced
import IntervalDump.Proofs.Collector.Concatenation
import IntervalDump.Proofs.Markup.Step
import IntervalDump.Proofs.Delivery.Script
import IntervalDump.Proofs.Delivery.Calls
import IntervalDump.Proofs.Delivery.Replay
import IntervalDump.Proofs.Delivery.InStep
import IntervalDump.Proofs.Delivery.Protocol
import IntervalDump.Proofs.Delivery.Reading
import IntervalDump.Proofs.Delivery.Tags
import IntervalDump.Proofs.Delivery.Cut
import IntervalDump.Proofs.Delivery.Unclosed
import IntervalDump.Proofs.Markup.Blur
import IntervalDump.Proofs.Delivery.Refills
import IntervalDump.Proofs.Delivery.Beginnings
import IntervalDump.Proofs.Markup.Passes
import IntervalDump.Proofs.Markup.Printed
import IntervalDump.Proofs.Markup.PrintedTag
import IntervalDump.Proofs.Markup.PrintedLexing
import IntervalDump.Proofs.Delivery.PrintedDocument
import IntervalDump.Proofs.Collector.Qualifiers
import IntervalDump.Proofs.Collector.Independence
import IntervalDump.Proofs.Collector.Nested
import IntervalDump.Proofs.Markup.TagBytes
import IntervalDump.Proofs.Delivery.TagCalls
import IntervalDump.Proofs.Collector.Aggregate
import IntervalDump.Proofs.Json.Reading
import IntervalDump.Proofs.CommandLine.Pipeline
import IntervalDump.Proofs.Decimal.Bits
import IntervalDump.Proofs.Decimal.Digits
import IntervalDump.Proofs.Decimal.Nearest
import IntervalDump.Proofs.Json.Numbers
import IntervalDump.Proofs.Json.Values
import IntervalDump.Proofs.Report
import IntervalDump.Proofs.Collector.Joining
import IntervalDump.Proofs.Collector.Rejoining
import IntervalDump.Proofs.Collector.Recording
import IntervalDump.Proofs.Json.Passing
import IntervalDump.Proofs.Config.Partial
import IntervalDump.Proofs.Config.Changes
import IntervalDump.Proofs.Decimal.Numeral
import IntervalDump.Proofs.Collector.Numbers
import IntervalDump.Proofs.Delivery.Openings
import IntervalDump.Proofs.Delivery.Turns
