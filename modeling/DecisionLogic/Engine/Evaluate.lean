import DecisionLogic.Operator.Registry

/-!
# Evaluation

A literal is its own value, the elements of a sequence are evaluated together, and an operation
calls the operator of its name.  An operator that traverses receives the value of its arguments,
which are evaluated first; every other operator receives the argument tree.  A suspended argument
suspends the call.

The depth limit is the measure of the recursion: a node is evaluated with the number of levels that
are left for it and the nodes below it.
-/

namespace DecisionLogic

structure Engine where
  registry : Registry
  options : Options

/-- Call an operator and make an outcome of what it returns.  A body that may wait, and pending
values, end as soon as a poll finds the token fired. -/
def callOperator (name : String) (operator : Operator) (input : Input) (scope : Scope)
    (handle : Handle) : Computation Evaluation := do
  Computation.ofAction (modify fun world => world.record ⟨name, operator.origin, input⟩)
  let output ← Computation.mapFailure (Failure.within name) <|
    match operator.body with
    | .immediate body => Computation.ofAction (body input scope handle)
    | .awaiting body => Computation.cancellable (body input scope handle)
    | .both _ body => Computation.cancellable (body input scope handle)
  match output with
  | .value value => return .done value
  | .evaluation evaluation => return evaluation
  | .pending computations =>
      let values ← Computation.mapFailure (Failure.within name) <|
        Computation.cancellable (Computation.joinAll computations)
      return .done (.array values)
  | .yield reason =>
      if handle.options.yieldSupported then
        let id ← Computation.ofAction Action.freshPoint
        return .suspended (.ofPoint ⟨id, name, input.toJson, reason⟩)
      else Computation.fail (.suspensionDisabled name)

namespace Engine

def handle (engine : Engine) (evaluate : Logic → Scope → Computation Evaluation) : Handle :=
  { options := engine.options, operatorCount := engine.registry.size, evaluate }

/-- Evaluate a node while `levels` levels, its own included, are left. -/
def evaluate (engine : Engine) : Nat → Logic → Scope → Computation Evaluation
  | 0, _, _ => do
      Computation.checkCancelled
      Computation.fail (.nestingTooDeep engine.options.maxDepth)
  | levels + 1, node, scope => do
      Computation.checkCancelled
      match node with
      | .literal value => return .done value
      | .sequence items =>
          let results ← Computation.joinAll
            (items.map fun item => engine.evaluate levels item scope)
          return .join results
      | .operation name args =>
          match engine.registry.lookup name with
          | none => Computation.fail (.unknownOperator name)
          | some operator =>
              let handle := engine.handle (engine.evaluate levels)
              if operator.traverse then
                match ← engine.evaluate levels args scope with
                | .done value => callOperator name operator (.evaluated value) scope handle
                | .suspended suspension =>
                    return .suspended (suspension.withinCall name args.toJson)
              else callOperator name operator (.raw args) scope handle

def levels (engine : Engine) : Nat :=
  engine.options.maxDepth + 1

/-- Evaluate a tree against `data` inside the data `above`, nearest first. -/
def runLogic (engine : Engine) (node : Logic) (data : Json) (above : List Json) :
    Computation Evaluation :=
  engine.evaluate engine.levels node (.withAbove data above)

def run (engine : Engine) (logic data : Json) (above : List Json) : Computation Evaluation := do
  let node ← Computation.ofExcept (Logic.parseBounded engine.options.maxDepth logic)
  engine.runLogic node data above

/-- Continue a suspended evaluation with a value for each of its points. -/
def resume (engine : Engine) (suspension : Suspension) (replacements : Replacements) (data : Json)
    (above : List Json) : Computation Evaluation := do
  let node ← Computation.ofExcept (suspension.toLogic replacements)
  engine.runLogic node data above

def addOperator (engine : Engine) (name : String) (shape : Shape) (annotations : Annotations) :
    Bool × Engine :=
  match engine.registry.register name shape annotations .custom with
  | (added, registry) => (added, { engine with registry })

def describe (engine : Engine) : String :=
  "Engine \x7b operators: " ++ toString engine.registry.size ++
    ", options: " ++ engine.options.describe ++ " \x7d"

end Engine
end DecisionLogic
