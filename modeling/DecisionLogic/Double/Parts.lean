/-!
# The exact value of a double

A finite double is `(-1) ^ s * m * 2 ^ q` with a significand `m < 2 ^ 53`.  What has to be exact,
the integral part, the remainder of a division and the decimal text, is computed on `m` and `q`.
-/

namespace DecisionLogic.Double

/-- Sign, significand and binary exponent of a finite double. -/
structure Parts where
  negative : Bool
  significand : Nat
  exponent : Int
deriving DecidableEq, Repr

/-- The parts of a finite double; of an infinity or a NaN they mean nothing. -/
def parts (x : Float) : Parts :=
  let bits : Nat := x.toBits.toNat
  let biased : Nat := bits / 0x10000000000000 % 0x800
  let fraction : Nat := bits % 0x10000000000000
  let negative : Bool := decide (0x8000000000000000 ≤ bits)
  if biased = 0 then ⟨negative, fraction, -1074⟩
  else ⟨negative, 0x10000000000000 + fraction, (biased : Int) - 1075⟩

/-- The double with the given parts, exact when the value has one: `significand < 2 ^ 53` and
`-1074 ≤ exponent ≤ 971`. -/
def ofParts (p : Parts) : Float :=
  let shift := min (52 - p.significand.log2) (p.exponent + 1074).toNat
  let significand := p.significand <<< shift
  let sign := if p.negative then 0x8000000000000000 else 0
  let magnitude :=
    if significand < 0x10000000000000 then significand
    else (p.exponent - shift + 1075).toNat * 0x10000000000000 + (significand - 0x10000000000000)
  Float.ofBits (sign + magnitude).toUInt64

def Parts.floor (p : Parts) : Nat :=
  if 0 ≤ p.exponent then p.significand <<< p.exponent.toNat
  else p.significand >>> (-p.exponent).toNat

def Parts.truncate (p : Parts) : Int :=
  if p.negative then -(p.floor : Int) else p.floor

def Parts.isIntegral (p : Parts) : Bool :=
  0 ≤ p.exponent || p.significand % (1 <<< (-p.exponent).toNat) == 0

/-- The remainder of the division of `a` by `b` with the quotient rounded toward zero.  It is exact
and has the sign of `a`; without a finite dividend and a divisor other than zero there is none. -/
def remainder (a b : Float) : Float :=
  if a.isNaN || b.isNaN || a.isInf || b == 0 then 0 / 0
  else if b.isInf then a
  else
    let p := parts a
    let d := parts b
    let exponent := min p.exponent d.exponent
    let dividend := p.significand <<< (p.exponent - exponent).toNat
    let divisor := d.significand <<< (d.exponent - exponent).toNat
    ofParts ⟨p.negative, dividend % divisor, exponent⟩

end DecisionLogic.Double
