import DecisionLogic.Json.Basic
import DecisionLogic.Double.Decimal
import DecisionLogic.Text.Hexadecimal

/-!
# Reading JSON text

A number without fraction and exponent that fits is an integer; every other number is a double.
The double is the significant digits, as many as fit in 64 bits, scaled by one power of ten, so it
can be off by a unit in the last place.  A number beyond the range of doubles is refused, and so
is nesting deeper than the reader is told to accept.
-/

namespace DecisionLogic.Json.Reader

def isBlank (c : Char) : Bool :=
  c = ' ' || c = '\n' || c = '\t' || c = '\r'

def skipBlank (cs : List Char) : List Char :=
  cs.dropWhile isBlank

/-! ## Numbers -/

/-- Significant digits as far as they fit, the exponent of ten they are scaled by, and whether
some digit did not fit. -/
structure Significand where
  value : Nat
  exponent : Int
  full : Bool

namespace Significand

def fits (value digit : Nat) : Bool :=
  10 * value + digit < 0x10000000000000000

/-- One more digit before the point.  A digit that does not fit still counts as a place, and so do
all digits after it. -/
def pushWhole (s : Significand) (c : Char) : Significand :=
  let digit := Text.digitValue c
  if !s.full && fits s.value digit then { s with value := 10 * s.value + digit }
  else { s with exponent := s.exponent + 1, full := true }

/-- One more digit behind the point.  A digit that does not fit is dropped, and so are all digits
after it. -/
def pushFraction (s : Significand) (c : Char) : Significand :=
  let digit := Text.digitValue c
  if !s.full && fits s.value digit then
    { s with value := 10 * s.value + digit, exponent := s.exponent - 1 }
  else { s with full := true }

end Significand

def powerOfTen (n : Nat) : Float :=
  Float.ofScientific 1 false n

/-- Division by a power of ten; beyond the greatest one in steps, until nothing is left. -/
def scaleDown : Nat → Float → Nat → Float
  | 0, _, _ => 0
  | tries + 1, x, places =>
      if places ≤ 308 then x / powerOfTen places
      else if x == 0 then x
      else scaleDown tries (x / powerOfTen 308) (places - 308)

/-- A significand scaled by a power of ten, unless the result is too large. -/
def scale? (significand : Nat) (exponent : Int) : Option Float :=
  let x := significand.toUInt64.toFloat
  if exponent < 0 then some (scaleDown 4 x (-exponent).toNat)
  else if exponent ≤ 308 then
    let scaled := x * powerOfTen exponent.toNat
    if scaled.isInf then none else some scaled
  else if significand = 0 then some x
  else none

def doubleOf? (negative : Bool) (significand : Nat) (exponent : Int) : Option Number :=
  match scale? significand exponent with
  | none => none
  | some x =>
      let signed := if negative then -x else x
      if h : signed.isFinite = true then some (.double ⟨signed, h⟩) else none

/-- The number with a whole part and neither fraction nor exponent.  A zero with a minus sign is
a double, since the integer has no such zero. -/
def wholeOf? (negative : Bool) (whole : Significand) : Option Number :=
  let exact : Int := if negative then -(whole.value : Int) else whole.value
  if whole.full || (negative && (whole.value = 0 || 0x8000000000000000 < whole.value)) then
    doubleOf? negative whole.value whole.exponent
  else (WideInt.ofInt? exact).map .integer

/-- The exponent part, when there is one: a sign and at least one digit. -/
def readExponent? : List Char → Option (Option Int × List Char)
  | [] => some (none, [])
  | mark :: rest =>
      if mark = 'e' ∨ mark = 'E' then
        let (negative, rest) := Text.readSign rest
        match Double.spanDigits rest with
        | ([], _) => none
        | (digits, rest) =>
            let value : Int := Text.digitsValue digits
            some (some (if negative then -value else value), rest)
      else some (none, mark :: rest)

def readFraction? : List Char → Option (List Char × List Char)
  | '.' :: rest =>
      match Double.spanDigits rest with
      | ([], _) => none
      | (digits, rest) => some (digits, rest)
  | rest => some ([], rest)

/-- The digits before the point: a single zero, or digits that do not start with one. -/
def readWhole? (cs : List Char) : Option (List Char × List Char) :=
  match Double.spanDigits cs with
  | ([], _) => none
  | ('0' :: _ :: _, _) => none
  | (digits, rest) => some (digits, rest)

def readNumber? (cs : List Char) : Option (Number × List Char) := do
  let (negative, rest) :=
    match cs with
    | '-' :: rest => (true, rest)
    | rest => (false, rest)
  let (wholeDigits, rest) ← readWhole? rest
  let whole := wholeDigits.foldl Significand.pushWhole ⟨0, 0, false⟩
  let (fractionDigits, rest) ← readFraction? rest
  let (exponent, rest) ← readExponent? rest
  if fractionDigits.isEmpty && exponent.isNone then
    let number ← wholeOf? negative whole
    return (number, rest)
  else
    let digits := fractionDigits.foldl Significand.pushFraction { whole with full := false }
    let number ← doubleOf? negative digits.value (digits.exponent + exponent.getD 0)
    return (number, rest)

/-! ## Strings -/

def escape? : Char → Option Char
  | '"' => some '"'
  | '\\' => some '\\'
  | '/' => some '/'
  | 'b' => some (Char.ofNat 8)
  | 'f' => some (Char.ofNat 12)
  | 'n' => some '\n'
  | 'r' => some '\r'
  | 't' => some '\t'
  | _ => none

/-- The characters up to the closing quote, after those read `before`, latest first.  A unit of the
upper half of a surrogate pair is followed by one of the lower half. -/
def readString? (before : List Char) : List Char → Option (String × List Char)
  | [] => none
  | '"' :: rest => some (String.ofList before.reverse, rest)
  | '\\' :: 'u' :: a :: b :: c :: d :: rest =>
      match Text.hexNumber? [a, b, c, d] with
      | none => none
      | some unit =>
          if 0xd800 ≤ unit ∧ unit < 0xdc00 then
            match rest with
            | '\\' :: 'u' :: a :: b :: c :: d :: rest =>
                match Text.hexNumber? [a, b, c, d] with
                | none => none
                | some low =>
                    if 0xdc00 ≤ low ∧ low < 0xe000 then
                      let code := 0x10000 + (unit - 0xd800) * 0x400 + (low - 0xdc00)
                      readString? (Char.ofNat code :: before) rest
                    else none
            | _ => none
          else if 0xdc00 ≤ unit ∧ unit < 0xe000 then none
          else readString? (Char.ofNat unit :: before) rest
  | '\\' :: c :: rest =>
      match escape? c with
      | none => none
      | some c => readString? (c :: before) rest
  | c :: rest => if c.toNat < 32 then none else readString? (c :: before) rest

/-! ## Values -/

def afterWord? (word cs : List Char) : Option (List Char) :=
  match word, cs with
  | [], cs => some cs
  | w :: word, c :: cs => if w = c then afterWord? word cs else none
  | _ :: _, [] => none

def readWord? (word : String) (value : Json) (cs : List Char) : Option (Json × List Char) :=
  (afterWord? word.toList cs).map fun rest => (value, rest)

mutual

/-- A value at the start of the text.  `levels` more containers may be open at once; `fuel` bounds
the steps, of which each character takes at most two. -/
def readValue? : Nat → Nat → List Char → Option (Json × List Char)
  | 0, _, _ => none
  | fuel + 1, levels, cs =>
      match skipBlank cs with
      | [] => none
      | c :: rest =>
          if c = '"' then
            (readString? [] rest).map fun (text, rest) => (.string text, rest)
          else if c = '[' then
            match levels with
            | 0 => none
            | levels + 1 =>
                match skipBlank rest with
                | ']' :: rest => some (.array [], rest)
                | rest => readItems? fuel levels [] rest
          else if c = '\x7b' then
            match levels with
            | 0 => none
            | levels + 1 =>
                match skipBlank rest with
                | '\x7d' :: rest => some (.object [], rest)
                | rest => readFields? fuel levels [] rest
          else if c = 'n' then readWord? "null" .null (c :: rest)
          else if c = 't' then readWord? "true" (.bool true) (c :: rest)
          else if c = 'f' then readWord? "false" (.bool false) (c :: rest)
          else (readNumber? (c :: rest)).map fun (n, rest) => (.number n, rest)

/-- The items of an array up to its closing bracket, after those read `before`, latest first. -/
def readItems? : Nat → Nat → List Json → List Char → Option (Json × List Char)
  | 0, _, _, _ => none
  | fuel + 1, levels, before, cs =>
      match readValue? fuel levels cs with
      | none => none
      | some (item, rest) =>
          match skipBlank rest with
          | ',' :: rest => readItems? fuel levels (item :: before) rest
          | ']' :: rest => some (.array (item :: before).reverse, rest)
          | _ => none

/-- The fields of an object up to its closing brace.  A key that comes again keeps its first place
and takes its last value. -/
def readFields? : Nat → Nat → Fields Json → List Char → Option (Json × List Char)
  | 0, _, _, _ => none
  | fuel + 1, levels, before, cs =>
      match skipBlank cs with
      | '"' :: rest =>
          match readString? [] rest with
          | none => none
          | some (key, rest) =>
              match skipBlank rest with
              | ':' :: rest =>
                  match readValue? fuel levels rest with
                  | none => none
                  | some (value, rest) =>
                      let fields := before.insert key value
                      match skipBlank rest with
                      | ',' :: rest => readFields? fuel levels fields rest
                      | '\x7d' :: rest => some (.object fields, rest)
                      | _ => none
              | _ => none
      | _ => none

end

end Reader

/-- The greatest number of containers that may be open at once in the text of an argument or a
file. -/
def usualLevels : Nat :=
  127

/-- The value that the whole text writes, with at most `levels` containers open at once. -/
def read? (levels : Nat) (text : String) : Option Json :=
  let cs := text.toList
  match Reader.readValue? (2 * cs.length + 2) levels cs with
  | some (value, rest) => if (Reader.skipBlank rest).isEmpty then some value else none
  | none => none

end DecisionLogic.Json
