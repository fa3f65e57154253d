import DecisionLogic.Standard.Arguments
import DecisionLogic.Standard.Relation

/-!
# Comparison operators

Equality of the first two arguments, and their order.  `<` and `<=` look at three arguments when
there are as many: each must stand in the relation to the next.
-/

namespace DecisionLogic.Standard

def ordered (accept : Ordering → Bool) (a b : Json) : Bool :=
  match compare a b with
  | some order => accept order
  | none => false

def chain (accept : Ordering → Bool) : List Json → Bool
  | a :: b :: c :: _ => ordered accept a b && ordered accept b c
  | args => ordered accept (argument args 0) (argument args 1)

def pairwise (relation : Json → Json → Bool) (args : List Json) : Except Failure Json :=
  .ok (.bool (relation (argument args 0) (argument args 1)))

def isLess : Ordering → Bool
  | .lt => true
  | _ => false

def isGreater : Ordering → Bool
  | .gt => true
  | _ => false

def comparisonEntries : List Entry := [
  pureEntry "==" (pairwise looselyEqual),
  pureEntry "!=" (pairwise fun a b => !looselyEqual a b),
  pureEntry "===" (pairwise strictlyEqual),
  pureEntry "!==" (pairwise fun a b => !strictlyEqual a b),
  pureEntry "<" fun args => .ok (.bool (chain isLess args)),
  pureEntry "<=" fun args => .ok (.bool (chain (fun order => !isGreater order) args)),
  pureEntry ">" (pairwise (ordered isGreater)),
  pureEntry ">=" (pairwise (ordered fun order => !isLess order))]

end DecisionLogic.Standard
