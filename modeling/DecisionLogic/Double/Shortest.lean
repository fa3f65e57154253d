import DecisionLogic.Double.Parts

/-!
# Shortest decimal digits

Every decimal in a certain interval around a double reads back as that double.  The shortest digits
are those of the coarsest decimal grid that has a point in the interval, and of two such points the
nearer one.  A point of a grid can only lie in the interval if one of the value's two neighbours on
that grid does, so two candidates for each number of digits are enough.  All of it is exact
arithmetic on natural numbers.
-/

namespace DecisionLogic.Double

structure Decimal where
  digits : Nat
  exponent : Int
deriving DecidableEq, Repr

namespace Decimal

/-- The same number without trailing zeros among its digits; `fuel` bounds their count. -/
def dropZeros : Nat → Decimal → Decimal
  | 0, d => d
  | fuel + 1, d =>
      if d.digits ≠ 0 ∧ d.digits % 10 = 0 then
        dropZeros fuel ⟨d.digits / 10, d.exponent + 1⟩
      else d

end Decimal

/-- An interval around a value as fractions over a common denominator: its ends are
`low / scale` and `high / scale`, and the value is `mid / scale`. -/
structure Interval where
  low : Nat
  mid : Nat
  high : Nat
  scale : Nat
  closed : Bool

/-- The interval of the reals that round to `significand * 2 ^ exponent`.  Its ends belong to it
when the significand is even; below a power of two the lower end is half as far away. -/
def interval (significand : Nat) (exponent : Int) : Interval :=
  let lowGap := if significand = 0x10000000000000 ∧ -1074 < exponent then 1 else 2
  let up := 1 <<< (exponent - 2).toNat
  let down := 1 <<< (2 - exponent).toNat
  { low := (4 * significand - lowGap) * up
    mid := 4 * significand * up
    high := (4 * significand + 2) * up
    scale := down
    closed := significand % 2 == 0 }

namespace Interval

/-- The value over the unit `10 ^ exponent`, as numerators and denominator. -/
def inUnits (i : Interval) (exponent : Int) : Interval :=
  let up := Nat.pow 10 (-exponent).toNat
  { i with
    low := i.low * up
    mid := i.mid * up
    high := i.high * up
    scale := i.scale * Nat.pow 10 exponent.toNat }

def holds (i : Interval) (n : Nat) : Bool :=
  if i.closed then i.low ≤ n * i.scale && n * i.scale ≤ i.high
  else i.low < n * i.scale && n * i.scale < i.high

/-- The natural number in the interval that is nearest to the value, the even one of two equally
near ones, if one of the value's two neighbours is in it. -/
def nearest? (i : Interval) : Option Nat :=
  let below := i.mid / i.scale
  let above := below + 1
  match i.holds below, i.holds above with
  | true, true =>
      let toBelow := i.mid - below * i.scale
      let toAbove := above * i.scale - i.mid
      if toBelow < toAbove then some below
      else if toAbove < toBelow then some above
      else if below % 2 = 0 then some below else some above
  | true, false => some below
  | false, true => some above
  | false, false => none

def midBelow (i : Interval) (exponent : Int) : Bool :=
  i.mid * Nat.pow 10 (-exponent).toNat < i.scale * Nat.pow 10 exponent.toNat

/-- The first of `digits`, `digits + 1`, … digits with a decimal in the interval, given that the
value has `magnitude` digits before the point. -/
def search (i : Interval) (magnitude : Int) : Nat → Nat → Decimal
  | 0, digits => ⟨i.mid / i.scale, magnitude - digits⟩
  | tries + 1, digits =>
      let exponent := magnitude - digits
      match (i.inUnits exponent).nearest? with
      | some n => ⟨n, exponent⟩
      | none => search i magnitude tries (digits + 1)

end Interval

/-- The least `e` with `significand * 2 ^ exponent < 10 ^ e`, found from the binary magnitude:
`30103 / 100000` is the decimal logarithm of two to five places. -/
def magnitude (significand : Nat) (exponent : Int) (i : Interval) : Int :=
  let guess := ((significand.log2 : Int) + exponent) * 30103 / 100000
  if i.midBelow guess then guess
  else if i.midBelow (guess + 1) then guess + 1
  else if i.midBelow (guess + 2) then guess + 2
  else guess + 3

/-- The shortest decimal that reads back as `significand * 2 ^ exponent`, a double other than zero;
seventeen digits are always enough. -/
def shortest (significand : Nat) (exponent : Int) : Decimal :=
  let i := interval significand exponent
  (i.search (magnitude significand exponent i) 17 1).dropZeros 20

end DecisionLogic.Double
