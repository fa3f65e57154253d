import DecisionLogic.Standard.Arguments
import DecisionLogic.Standard.Coercion

/-!
# Logical operators and conditionals

`and`, `or` and `if` take their arguments as trees and evaluate only what they need.  When an
argument suspends, the suspension keeps the arguments that were not reached; those before it are
decided and dropped, and continuing takes up the same decision.
-/

namespace DecisionLogic.Standard

/-- The outcome when one argument is suspended and those behind it were not reached. -/
def suspendedAt (operator : String) (input : Input) (suspension : Suspension)
    (unreached : List Logic) : Output :=
  .evaluation (.suspended (.ofArguments operator input.toJson
    (suspension.root :: unreached.map PartialTree.ofLogic)))

/-- The first value with truth value `stop`, or else the last one; `last` is the value before. -/
def firstDeciding (operator : String) (stop : Bool) (input : Input) (scope : Scope)
    (handle : Handle) (last : Json) : List Logic → Computation Output
  | [] => pure (.value last)
  | node :: rest => do
      match ← handle.evaluate node scope with
      | .done value =>
          if truthy value == stop then return .value value
          else firstDeciding operator stop input scope handle value rest
      | .suspended suspension => return suspendedAt operator input suspension rest

/-- The operator `and` stops at the first falsy value, `or` at the first truthy one. -/
def shortCircuit (operator : String) (stop : Bool) : AwaitingBody :=
  fun input scope handle =>
    firstDeciding operator stop input scope handle .null input.argumentNodes

/-- Conditions and results in turn, and at the end what holds otherwise. -/
def branches (operator : String) (input : Input) (scope : Scope) (handle : Handle) :
    List Logic → Computation Output
  | [] => pure (.value .null)
  | [otherwise] => do return .evaluation (← handle.evaluate otherwise scope)
  | condition :: result :: rest => do
      match ← handle.evaluate condition scope with
      | .done value =>
          if truthy value then return .evaluation (← handle.evaluate result scope)
          else branches operator input scope handle rest
      | .suspended suspension => return suspendedAt operator input suspension (result :: rest)

def conditional (operator : String) : AwaitingBody :=
  fun input scope handle => branches operator input scope handle input.argumentNodes

/-- The exclusive or of the 32-bit readings of the first two arguments. -/
def exclusiveOr (a b : Json) : Json :=
  .ofInt (toInt32 a ^^^ toInt32 b).toInt

def choiceEntries : List Entry := [
  pureEntry "!" fun args => .ok (.bool !truthy (argument args 0)),
  pureEntry "!!" fun args => .ok (.bool (truthy (argument args 0))),
  pureEntry "xor" fun args => .ok (exclusiveOr (argument args 0) (argument args 1)),
  lazyEntry "and" (shortCircuit "and" false),
  lazyEntry "or" (shortCircuit "or" true),
  lazyEntry "if" (conditional "if"),
  lazyEntry "?:" (conditional "?:")]

end DecisionLogic.Standard
