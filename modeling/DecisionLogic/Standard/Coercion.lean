import DecisionLogic.Json.Printer
import DecisionLogic.Double.Decimal
import DecisionLogic.Text.Blank

/-!
# Coercions

How the standard operators read any value as a number, as text, or as a truth value.
-/

namespace DecisionLogic.Standard

def notANumber : Float :=
  0 / 0

/-- The number that text writes between blank ends; blank text counts as zero. -/
def textNumber (text : String) : Float :=
  let trimmed := Text.trimBlank text.toList
  if trimmed.isEmpty then 0 else (Double.read? trimmed).getD notANumber

/-- The numeric reading of a value, a NaN when it has none.  An array with one item is read as its
item. -/
def toNumber : Json → Float
  | .null => 0
  | .bool b => if b then 1 else 0
  | .number n => n.toFloat
  | .string text => textNumber text
  | .array [] => 0
  | .array [item] => toNumber item
  | .array _ => notANumber
  | .object _ => notANumber

/-- The greatest absolute value up to which every integer is a double of its own. -/
def greatestExact : Nat :=
  0x1fffffffffffff

/-- The JSON number for a double: an integer where that is exact, null for an infinity or a NaN. -/
def ofDouble (x : Float) : Json :=
  if h : x.isFinite = true then
    let p := Double.parts x
    if p.isIntegral && p.floor ≤ greatestExact then .ofInt p.truncate
    else .number (.double ⟨x, h⟩)
  else .null

def truthy : Json → Bool
  | .null => false
  | .bool b => b
  | .number n => n.toFloat != 0
  | .string text => !text.isEmpty
  | .array items => !items.isEmpty
  | .object _ => true

/-- A double without fractional part below `10 ^ 21`, in full; none for any other. -/
def wholeText? (x : Float) : Option String :=
  let p := Double.parts x
  if p.isIntegral && p.floor < 1000000000000000000000 then
    some ((if p.negative then "-" else "") ++ toString p.floor)
  else none

/-- The text of a number: whole ones in full, the others as JSON.  Integers of 64 bits with sign are
exact; greater ones are written by way of a double. -/
def numberText (n : Number) : String :=
  match n with
  | .integer i =>
      if i.val < 0x8000000000000000 then toString i.val
      else (wholeText? i.toFloat).getD n.text
  | .double x => (wholeText? x.val).getD n.text

mutual

def toText : Json → String
  | .null => "null"
  | .bool b => toString b
  | .number n => numberText n
  | .string text => text
  | .array items => ",".intercalate (itemTexts items)
  | .object _ => "[object Object]"

def itemTexts : List Json → List String
  | [] => []
  | .null :: items => "" :: itemTexts items
  | item :: items => toText item :: itemTexts items

end

/-- The low 32 bits, with sign, of the integral part of the numeric reading.  The integral part is
first brought into 64 bits; a value without a finite reading gives zero. -/
def toInt32 (value : Json) : Int32 :=
  let x := toNumber value
  if x.isFinite then
    let whole := (Double.parts x).truncate
    let clamped := max (-0x8000000000000000) (min 0x7fffffffffffffff whole)
    Int32.ofInt clamped
  else 0

end DecisionLogic.Standard
