import DecisionLogic.Computation.Basic
import DecisionLogic.Scope
import DecisionLogic.Options.Basic
import DecisionLogic.Suspension.Basic

/-!
# Operators

An operator is supplied in a shape: a body that answers at once, a body that may wait, or both, with
a flag that says whether its arguments are evaluated first.  Together with its annotations it is
normalized into an `Operator`, so that a call never looks at the shape again.
-/

namespace DecisionLogic

/-- What an operator can reach back into while it runs. -/
structure Handle where
  options : Options
  /-- The number of operators that the engine knows. -/
  operatorCount : Nat
  evaluate : Logic → Scope → Computation Evaluation

inductive Output where
  | value (value : Json)
  /-- Values that are still computed; they are awaited together and kept in order. -/
  | pending (computations : List (Computation Json))
  /-- The operator cannot finish now; the reason says what it waits for. -/
  | yield (reason : Json)
  /-- The outcome of evaluating a tree, passed on as it is. -/
  | evaluation (evaluation : Evaluation)

abbrev ImmediateBody : Type :=
  Input → Scope → Handle → Action Output

abbrev AwaitingBody : Type :=
  Input → Scope → Handle → Computation Output

/-- The bodies of an operator, at least one. -/
inductive OperatorBody where
  | immediate (body : ImmediateBody)
  | awaiting (body : AwaitingBody)
  | both (body : ImmediateBody) (waitingBody : AwaitingBody)

/-- A supplied operator before it is normalized. -/
structure Shape where
  immediate : Option ImmediateBody := none
  awaiting : Option AwaitingBody := none
  traverse : Bool := true

/-- Hints for the classification of programs. -/
structure Annotations where
  /-- Equal arguments give equal values, whatever the scope. -/
  deterministic : Bool := false
  /-- Whether the operator never waits by itself; by default, whether it has no awaiting body. -/
  sync : Option Bool := none
  yields : Bool := false
  useContext : Bool := false
  /-- The raw arguments are data and never evaluated. -/
  rawData : Bool := false
deriving DecidableEq

structure Operator where
  body : OperatorBody
  traverse : Bool
  deterministic : Bool
  yields : Bool
  useContext : Bool
  rawData : Bool
  sync : Bool
  origin : Origin

namespace OperatorBody

def hasImmediate : OperatorBody → Bool
  | .awaiting _ => false
  | _ => true

def hasAwaiting : OperatorBody → Bool
  | .immediate _ => false
  | _ => true

end OperatorBody

namespace Shape

def body? (shape : Shape) : Option OperatorBody :=
  match shape.immediate, shape.awaiting with
  | some body, none => some (.immediate body)
  | none, some body => some (.awaiting body)
  | some body, some waitingBody => some (.both body waitingBody)
  | none, none => none

/-- The operator with the given shape and annotations; a shape without a body makes none. -/
def normalize (shape : Shape) (annotations : Annotations) (origin : Origin) : Option Operator :=
  shape.body?.map fun body =>
    { body
      traverse := shape.traverse
      deterministic := annotations.deterministic
      yields := annotations.yields
      useContext := annotations.useContext
      rawData := annotations.rawData
      sync := annotations.sync.getD !body.hasAwaiting
      origin }

end Shape

/-- An operator that is not sync, or that may yield, makes a program async. -/
def Operator.isAsync (operator : Operator) : Bool :=
  !operator.sync || operator.yields

end DecisionLogic
