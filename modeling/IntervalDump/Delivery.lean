import IntervalDump.Event.Handler
import IntervalDump.Markup.Lexer
import IntervalDump.Markup.Tag
import IntervalDump.Source
/-!
# Delivering a document to a handler

`deliver` gives a handler the events of a document while its bytes come in: the start of the
document, the tags as they are completed, the end of the document. It stops at the first failure,
be it the handler's own, a fault in the bytes, or an element that is still open at the end. A
handler never hears of a tag before its `>` was read.
-/

namespace IntervalDump

/-- The state of a delivery. -/
structure Delivery (σ : Type) where
  lexer : Markup.Lexer := {}
  /-- The elements whose start was delivered and whose end was not, the innermost first. -/
  pending : List Name := []
  /-- How many starts of elements were delivered. -/
  elements : Nat := 0
  handler : σ

namespace Delivery

variable {ε σ : Type}

/-- Lets the handler take a step. -/
def call (step : σ → Outcome ε σ) (d : Delivery σ) : Outcome ε (Delivery σ) :=
  (step d.handler).map fun handler => { d with handler }

/-- Delivers a completed tag. -/
def receiveToken (h : Handler ε σ) (token : Markup.Token) (d : Delivery σ) :
    Outcome ε (Delivery σ) :=
  match token with
  | .start content =>
    match Markup.decodeTag content with
    | .error fault => .fail (h.fault fault) d
    | .ok (name, attributes) =>
      (call (h.startElement name attributes) d).map fun d =>
        { d with pending := name :: d.pending, elements := d.elements + 1 }
  | .empty content =>
    match Markup.decodeTag content with
    | .error fault => .fail (h.fault fault) d
    | .ok (name, attributes) =>
      ((call (h.startElement name attributes) d).andThen (call (h.endElement name))).map fun d =>
        { d with elements := d.elements + 1 }
  | .finish raw =>
    match Name.decode raw with
    | .error fault => .fail (h.fault (.encoding fault)) d
    | .ok name => (call (h.endElement name) d).map fun d => { d with pending := d.pending.drop 1 }

/-- Takes in one byte. -/
def receiveByte (h : Handler ε σ) (b : UInt8) (d : Delivery σ) : Outcome ε (Delivery σ) :=
  match d.lexer.feed b with
  | .quiet lexer => .ok { d with lexer }
  | .token token lexer => receiveToken h token { d with lexer }
  | .fault position fault => .fail (h.fault (.token position fault)) d

/-- Takes in the bytes of one refill. -/
def receiveRefill (h : Handler ε σ) (refill : List UInt8) (d : Delivery σ) :
    Outcome ε (Delivery σ) :=
  (Outcome.each (receiveByte h) refill d).map fun d => { d with lexer := d.lexer.endRefill }

/-- The end of the source: it failed, or the document ended. -/
def finish (h : Handler ε σ) (failure? : Option String) (d : Delivery σ) :
    Outcome ε (Delivery σ) :=
  match failure?.map .sourceFailed <|> d.lexer.finish? with
  | some fault => .fail (h.fault (.token d.lexer.stand fault)) d
  | none =>
    match d.pending with
    | element :: _ => .fail (h.fault (.unclosed element.text d.lexer.position)) d
    | [] => (Outcome.tell (.elementsDelivered d.elements) d).andThen (call h.endDocument)

end Delivery

/-- Delivers the document of a source to a handler. -/
def deliver {ε σ : Type} (h : Handler ε σ) (source : Source) (state : σ) : Outcome ε σ :=
  ((Delivery.call h.startDocument { handler := state }).andThen
    (Outcome.each (Delivery.receiveRefill h) source.document)).andThen
      (Delivery.finish h source.failure?)
    |>.map Delivery.handler

end IntervalDump
