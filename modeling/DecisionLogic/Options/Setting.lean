import DecisionLogic.Double.Parts
import DecisionLogic.Double.Decimal
import DecisionLogic.Json.Fields

/-!
# Settings

A setting is a value in a source of options.  Truth values and counts are read from it with some
tolerance: a number counts as true unless it is zero, a word such as `yes` or `off` as a truth
value, and a fraction is rounded to a whole count.
-/

namespace DecisionLogic

inductive Setting where
  | nothing
  | boolean (value : Bool)
  | integer (value : Int)
  | real (value : Float)
  | text (value : String)
  | list (items : List Setting)
  | table (entries : List (String × Setting))
deriving Inhabited

namespace Setting

/-- The text in lower case.  Only ASCII letters change, since the words that are looked for hold no
others. -/
def lowerCase (text : String) : String :=
  String.ofList (text.toList.map Char.toLower)

def wordTruth? (text : String) : Option Bool :=
  let word := lowerCase text
  if word = "true" ∨ word = "on" ∨ word = "yes" then some true
  else if word = "false" ∨ word = "off" ∨ word = "no" then some false
  else none

def toBool? : Setting → Option Bool
  | .nothing => none
  | .boolean b => some b
  | .integer n => some (n != 0)
  | .real x => some (x != 0)
  | .text word =>
      if word = "1" then some true
      else if word = "0" then some false
      else wordTruth? word
  | .list _ => none
  | .table _ => none

def greatestCount : Nat :=
  0xffffffffffffffff

/-- The nearest whole count, a half rounded up, between zero and the greatest one. -/
def roundCount (x : Float) : Nat :=
  let p := Double.parts x
  if x.isNaN || p.negative then 0
  else if x.isInf then greatestCount
  else
    let whole := p.floor
    let unit := 1 <<< (-p.exponent).toNat
    let down := 2 * (p.significand % unit) < unit
    min (if down then whole else whole + 1) greatestCount

def toCount? : Setting → Option Nat
  | .nothing => none
  | .boolean b => some b.toNat
  | .integer n => if 0 ≤ n then some n.toNat else none
  | .real x => some (roundCount x)
  | .text word =>
      match wordTruth? word with
      | some b => some b.toNat
      | none => Text.natural64? word.toList
  | .list _ => none
  | .table _ => none

end Setting
end DecisionLogic
