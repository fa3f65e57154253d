import DecisionLogic.Double.Shortest

/-!
# The text of a double

A layout says which decimal exponents are written positionally; the others are written with one
digit before the point and an exponent that carries its sign.
-/

namespace DecisionLogic.Double

/-- The decimal exponents, of the first digit, that are written without an exponent. -/
structure Layout where
  leastPositional : Int
  greatestPositional : Int

namespace Layout

def zeros (n : Nat) : List Char :=
  List.replicate n '0'

/-- Digits with the decimal point `point` places behind the first digit's left edge; a number
without fractional digits still shows one. -/
def positional (digits : List Char) (point : Int) : List Char :=
  if point ≤ 0 then '0' :: '.' :: (zeros (-point).toNat ++ digits)
  else
    let whole := point.toNat
    if digits.length ≤ whole then digits ++ zeros (whole - digits.length) ++ ['.', '0']
    else digits.take whole ++ '.' :: digits.drop whole

def scientific (digits : List Char) (exponent : Int) : List Char :=
  let mantissa :=
    match digits with
    | [] => []
    | [digit] => [digit]
    | digit :: rest => digit :: '.' :: rest
  let sign := if exponent < 0 then '-' else '+'
  mantissa ++ 'e' :: sign :: Nat.toDigits 10 exponent.natAbs

def write (layout : Layout) (d : Decimal) : List Char :=
  let digits := Nat.toDigits 10 d.digits
  let exponent := d.exponent + digits.length - 1
  if layout.leastPositional ≤ exponent ∧ exponent ≤ layout.greatestPositional then
    positional digits (exponent + 1)
  else scientific digits exponent

end Layout

/-- The text of a finite double: its sign, and its shortest digits as `layout` places them. -/
def text (layout : Layout) (x : Float) : String :=
  let p := parts x
  let unsigned :=
    if p.significand = 0 then Layout.positional ['0'] 1
    else layout.write (shortest p.significand p.exponent)
  String.ofList (if p.negative then '-' :: unsigned else unsigned)

end DecisionLogic.Double
