import DecisionLogic.Standard.Arguments
import DecisionLogic.Standard.Coercion

/-!
# Arithmetic operators

They fold from the left over the numeric readings of their arguments, so that `{"-": [1, 2, 3]}` is
`(1 - 2) - 3`.
-/

namespace DecisionLogic.Standard

def numbers (args : List Json) : List Float :=
  args.map toNumber

def add (args : List Json) : Except Failure Json :=
  .ok (ofDouble ((numbers args).foldl (· + ·) 0))

def foldNumbers (operator : String) (f : Float → Float → Float) (args : List Json) :
    Except Failure Json :=
  match numbers args with
  | [] => .error (.invalidArguments operator "expected at least one operand")
  | first :: rest => .ok (ofDouble (rest.foldl f first))

def subtract (args : List Json) : Except Failure Json :=
  match numbers args with
  | [operand] => .ok (ofDouble (-operand))
  | _ => foldNumbers "-" (· - ·) args

def smaller (x y : Float) : Float :=
  if y < x then y else x

def larger (x y : Float) : Float :=
  if x < y then y else x

/-- The operand that `pick` prefers; null without operands or with one that is not a number. -/
def extreme (pick : Float → Float → Float) (args : List Json) : Except Failure Json :=
  match numbers args with
  | [] => .ok .null
  | first :: rest =>
      if (first :: rest).any Float.isNaN then .ok .null
      else .ok (ofDouble (rest.foldl pick first))

def arithmeticEntries : List Entry := [
  pureEntry "+" add,
  pureEntry "-" subtract,
  pureEntry "*" (foldNumbers "*" (· * ·)),
  pureEntry "/" (foldNumbers "/" (· / ·)),
  pureEntry "%" (foldNumbers "%" Double.remainder),
  pureEntry "min" (extreme smaller),
  pureEntry "max" (extreme larger)]

end DecisionLogic.Standard
