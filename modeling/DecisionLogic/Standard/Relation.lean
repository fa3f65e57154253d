import DecisionLogic.Standard.Coercion

/-!
# Equality and order

Strict equality looks at numbers by value and at everything else by structure.  Loose equality reads
numbers, strings, booleans and the text of containers as one another.  The order compares strings as
text and all else as numbers.
-/

namespace DecisionLogic.Standard

def compareNumbers (x y : Float) : Option Ordering :=
  if x < y then some .lt
  else if x == y then some .eq
  else if y < x then some .gt
  else none

/-- The order of two values, none when one of them has no numeric reading. -/
def compare : Json → Json → Option Ordering
  | .string a, .string b => some (compareOfLessAndEq a b)
  | a, b => compareNumbers (toNumber a) (toNumber b)

def strictlyEqual : Json → Json → Bool
  | .number x, .number y => x.toFloat == y.toFloat
  | a, b => a.same b

/-- What loose equality distinguishes values by. -/
inductive Kind where
  | null
  | bool
  | scalar
  | container
deriving DecidableEq

def Kind.of : Json → Kind
  | .null => .null
  | .bool _ => .bool
  | .number _ => .scalar
  | .string _ => .scalar
  | .array _ => .container
  | .object _ => .container

def sameNumber (a b : Json) : Bool :=
  toNumber a == toNumber b

/-- Equality with coercion.  Null equals only itself; a boolean is read as a number, a container
beside a number or string as text or as a number. -/
def looselyEqual (a b : Json) : Bool :=
  match Kind.of a, Kind.of b with
  | .null, .null => true
  | .null, _ => false
  | _, .null => false
  | .bool, .bool => strictlyEqual a b
  | .bool, _ => sameNumber a b
  | _, .bool => sameNumber a b
  | .scalar, .scalar =>
      match a, b with
      | .number _, .string _ => sameNumber a b
      | .string _, .number _ => sameNumber a b
      | _, _ => strictlyEqual a b
  | .container, .scalar => toText a == toText b || sameNumber a b
  | .scalar, .container => toText a == toText b || sameNumber a b
  | .container, .container => strictlyEqual a b

end DecisionLogic.Standard
