import IntervalDump.Json.Quoted
import IntervalDump.Decimal.Layout
/-!
# JSON values and their two layouts

The values that the library prints, and their text: on one line without blanks, or with two blanks
of indentation for each level. Members are printed in the order in which they are listed. Numbers
are doubles; those that are not finite have no numeral in JSON and are printed as `null`.
-/

namespace IntervalDump.Json

/-- The values that are printed, and read back. -/
inductive Value where
  | null
  | number (x : Float)
  | text (s : String)
  | array (items : List Value)
  | object (members : List (String × Value))

/-- Numbers are written positionally from `0.00001` up to sixteen digits before the point, and
with an exponent outside that range; a whole number keeps a `.0`; ties go to the even digit. -/
def numberLayout : Layout :=
  ⟨.toEven, fun exponent => -5 ≤ exponent && exponent ≤ 15, true⟩

inductive Style where
  | compact
  | pretty
  deriving DecidableEq, Repr

/-- What stands between an opening bracket, the items and the closing bracket: nothing, or a new
line with the indentation of `depth`. -/
def Style.line (style : Style) (depth : Nat) (out : String) : String :=
  match style with
  | .compact => out
  | .pretty => (depth.repeat (fun out => (out.push ' ').push ' ') (out.push '\n'))

/-- What stands between a key and its value. -/
def Style.colon (style : Style) (out : String) : String :=
  match style with
  | .compact => out.push ':'
  | .pretty => (out.push ':').push ' '

/-- On one line, or one entry to a line. -/
def writeNumber (x : Float) (out : String) : String :=
  if x.isFinite then out ++ numberLayout.text x else out ++ "null"

namespace Value

mutual

/-- Adds the text of a value to `out`; `depth` is the number of brackets it stands in. -/
def write (style : Style) (depth : Nat) (value : Value) (out : String) : String :=
  match value with
  | .null => out ++ "null"
  | .number x => writeNumber x out
  | .text s => Quoted.write s out
  | .array [] => out ++ "[]"
  | .array (item :: items) =>
    let out := write style (depth + 1) item (style.line (depth + 1) (out.push '['))
    (style.line depth (writeItems style (depth + 1) items out)).push ']'
  | .object [] => (out.push '\x7b').push '\x7d'
  | .object ((key, item) :: members) =>
    let out := Quoted.write key (style.line (depth + 1) (out.push '\x7b'))
    let out := write style (depth + 1) item (style.colon out)
    (style.line depth (writeMembers style (depth + 1) members out)).push '\x7d'

/-- The items behind the first one, each behind a comma. -/
def writeItems (style : Style) (depth : Nat) (items : List Value) (out : String) : String :=
  match items with
  | [] => out
  | item :: items =>
    writeItems style depth items (write style depth item (style.line depth (out.push ',')))

/-- The members behind the first one, each behind a comma. -/
def writeMembers (style : Style) (depth : Nat) (members : List (String × Value)) (out : String) :
    String :=
  match members with
  | [] => out
  | (key, item) :: members =>
    let out := Quoted.write key (style.line depth (out.push ','))
    writeMembers style depth members (write style depth item (style.colon out))

end

/-- The text of a value. -/
def render (style : Style) (value : Value) : String :=
  write style 0 value ""

end Value

end IntervalDump.Json
