import DecisionLogic.Text.Numeral

/-!
# Reading doubles from decimal text

The text is an optional sign and either a word for an infinity or a NaN, or decimal digits with an
optional point and an optional exponent.  The result is the double nearest to the number written.
-/

namespace DecisionLogic.Double

/-- The nearest double to `digits * 10 ^ exponent`.  Numbers far outside the range of doubles are
decided by their magnitude alone. -/
def ofDecimal (digits : Nat) (exponent : Int) : Float :=
  if digits = 0 then 0
  else
    let magnitude := (Nat.toDigits 10 digits).length + exponent
    if 400 < magnitude then 1 / 0
    else if magnitude < -400 then 0
    else if 0 ≤ exponent then Float.ofScientific digits false exponent.toNat
    else Float.ofScientific digits true (-exponent).toNat

def spanDigits (cs : List Char) : List Char × List Char :=
  cs.span Char.isDigit

def readExponent? : List Char → Option Int
  | [] => some 0
  | mark :: rest =>
      if mark = 'e' ∨ mark = 'E' then
        let (negative, rest) := Text.readSign rest
        match spanDigits rest with
        | ([], _) => none
        | (digits, []) =>
            let value : Int := Text.digitsValue digits
            some (if negative then -value else value)
        | _ => none
      else none

def readMagnitude? (cs : List Char) : Option Float :=
  let (whole, rest) := spanDigits cs
  let (fraction, rest) :=
    match rest with
    | '.' :: rest => spanDigits rest
    | rest => ([], rest)
  if whole.isEmpty && fraction.isEmpty then none
  else
    (readExponent? rest).map fun exponent =>
      ofDecimal (Text.digitsValue (whole ++ fraction)) (exponent - fraction.length)

def read? (cs : List Char) : Option Float :=
  let (negative, rest) := Text.readSign cs
  let word := String.ofList (rest.map Char.toLower)
  let magnitude :=
    if word = "inf" ∨ word = "infinity" then some (1 / 0)
    else if word = "nan" then some (0 / 0)
    else readMagnitude? rest
  magnitude.map fun x => if negative then -x else x

end DecisionLogic.Double
