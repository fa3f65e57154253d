import DecisionLogic.Options.Setting
import DecisionLogic.Text.Hexadecimal

/-!
# Words of TOML

Values that are not in quotes: truth values, numbers in several bases, and moments.
-/

namespace DecisionLogic.Toml

/-- Digits in which an underscore may stand between two of them, without the underscores. -/
def plainDigits? (isDigit : Char → Bool) : List Char → Option (List Char)
  | [] => none
  | [c] => if isDigit c then some [c] else none
  | c :: '_' :: rest =>
      if isDigit c then (plainDigits? isDigit rest).map (c :: ·) else none
  | c :: rest => if isDigit c then (plainDigits? isDigit rest).map (c :: ·) else none

def inRange (n : Int) : Option Setting :=
  if Text.isInteger64 n then some (.integer n) else none

def radixInteger? (base : Nat) (digits : List Char) : Option Setting := do
  let digits ← plainDigits? (fun c => (Text.hexValue? c).isSome) digits
  inRange (← Text.baseNumber? base digits)

def decimalDigits? (cs : List Char) : Option (List Char) := do
  match ← plainDigits? Char.isDigit cs with
  | '0' :: _ :: _ => none
  | digits => some digits

def fractional? (cs : List Char) : Option Float := do
  let (mantissa, exponent) := cs.span fun c => c ≠ 'e' && c ≠ 'E'
  let (whole, fraction) := mantissa.span fun c => c ≠ '.'
  let whole ← decimalDigits? whole
  let fraction ← match fraction with
    | [] => some []
    | _ :: fraction => plainDigits? Char.isDigit fraction
  let exponent ← match exponent with
    | [] => some 0
    | _ :: exponent =>
        let (negative, digits) := Text.readSign exponent
        (plainDigits? Char.isDigit digits).map fun digits =>
          if negative then -(Text.digitsValue digits : Int) else Text.digitsValue digits
  return Double.ofDecimal (Text.digitsValue (whole ++ fraction)) (exponent - fraction.length)

def digitsAt (cs : List Char) (start count : Nat) : Option Nat :=
  let digits := (cs.drop start).take count
  if digits.length = count ∧ digits.all Char.isDigit then some (Text.digitsValue digits) else none

def daysIn (year month : Nat) : Nat :=
  if month = 2 then
    if year % 4 = 0 ∧ (year % 100 ≠ 0 ∨ year % 400 = 0) then 29 else 28
  else if month ∈ [4, 6, 9, 11] then 30
  else 31

def isDate (cs : List Char) : Bool :=
  match digitsAt cs 0 4, digitsAt cs 5 2, digitsAt cs 8 2 with
  | some year, some month, some day =>
      cs.length = 10 && cs[4]? = some '-' && cs[7]? = some '-' && 1 ≤ month && month ≤ 12 &&
        1 ≤ day && day ≤ daysIn year month
  | _, _, _ => false

def isTime (lastHour : Nat) (cs : List Char) : Bool :=
  match digitsAt cs 0 2, digitsAt cs 3 2, digitsAt cs 6 2 with
  | some hour, some minute, some second =>
      cs[2]? = some ':' && cs[5]? = some ':' && hour ≤ lastHour && minute < 60 && second ≤ 60 &&
        (match cs.drop 8 with
          | [] => true
          | '.' :: fraction => !fraction.isEmpty && fraction.all Char.isDigit
          | _ => false)
  | _, _, _ => false

/-- The offset of a time: none, `Z`, or hours and minutes with a sign. -/
def isOffset (fits : Nat → Nat → Bool) (cs : List Char) : Bool :=
  match cs with
  | [] => true
  | [c] => c = 'Z' || c = 'z'
  | sign :: rest =>
      match digitsAt rest 0 2, digitsAt rest 3 2 with
      | some hour, some minute =>
          (sign = '+' || sign = '-') && rest.length = 5 && rest[2]? = some ':' && fits hour minute
      | _, _ => false

def isMomentWithin (lastHour : Nat) (fits : Nat → Nat → Bool) (cs : List Char) : Bool :=
  isDate cs || isTime lastHour cs ||
    (isDate (cs.take 10) && (cs[10]? = some 'T' || cs[10]? = some 't' || cs[10]? = some ' ') &&
      let (time, offset) := (cs.drop 11).span fun c => c.isDigit || c = ':' || c = '.'
      isTime lastHour time && isOffset fits offset)

def isMoment (word : List Char) : Bool :=
  isMomentWithin 23 (fun hour minute => hour < 24 && minute < 60) word

/-- A text that stands for a moment.  It may name the hour 24 and any offset up to a day. -/
def isMomentText (text : String) : Bool :=
  isMomentWithin 24 (fun hour minute => 60 * hour + minute ≤ 1440) text.toList

def scalar? (word : List Char) : Option Setting :=
  let (negative, magnitude) := Text.readSign word
  let name := String.ofList magnitude
  if String.ofList word = "true" then some (.boolean true)
  else if String.ofList word = "false" then some (.boolean false)
  else if name = "inf" then some (.real (if negative then -(1 / 0) else 1 / 0))
  else if name = "nan" then some (.real (0 / 0))
  else
    match word with
    | '0' :: 'x' :: digits => radixInteger? 16 digits
    | '0' :: 'o' :: digits => radixInteger? 8 digits
    | '0' :: 'b' :: digits => radixInteger? 2 digits
    | _ =>
        match decimalDigits? magnitude with
        | some digits =>
            let n : Int := Text.digitsValue digits
            inRange (if negative then -n else n)
        | none =>
            match fractional? magnitude with
            | some x =>
                if x.isInf && !negative then none
                else some (.real (if negative then -x else x))
            | none => none

def isWordChar (c : Char) : Bool :=
  c.isAlphanum || c = '_' || c = '-' || c = '+' || c = '.' || c = ':'

/-- The characters of a word; between a date and a time a single blank may stand. -/
def spanWord (cs : List Char) : List Char × List Char :=
  match cs.span isWordChar with
  | (word, ' ' :: rest) =>
      let (time, after) := rest.span isWordChar
      if isDate word && isTime 23 (time.take 8) then (word ++ ' ' :: time, after)
      else (word, ' ' :: rest)
  | parts => parts

end DecisionLogic.Toml
