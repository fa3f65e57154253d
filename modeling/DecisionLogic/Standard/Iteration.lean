import DecisionLogic.Standard.Choice

/-!
# Iteration over arrays

The first argument gives the items, the second one is the body.  The body is evaluated for each item
in a scope of the item, inside a scope of the whole array, inside the current scope; for `reduce`
the innermost scope holds the accumulated value and the current item.

A suspension inside the body cannot be taken up in the middle of the items, so it becomes a single
point that stands for the whole operator.
-/

namespace DecisionLogic.Standard

/-- The items that the first argument gives, or the output when it is suspended.  Anything but an
array has no items. -/
def items (operator : String) (input : Input) (scope : Scope) (handle : Handle) :
    Computation (Except Output (List Json)) := do
  match input.argumentNodes with
  | [] => return .ok []
  | node :: rest =>
      match ← handle.evaluate node scope with
      | .done (.array items) => return .ok items
      | .done _ => return .ok []
      | .suspended suspension => return .error (suspendedAt operator input suspension rest)

def bodyOf (input : Input) : Logic :=
  input.argumentNodes.getD 1 (.literal .null)

/-- The output of an operator whose body suspended: a single point for the whole operator, with the
identifier and the reason of the first point inside, so that the caller still sees what is
awaited. -/
def collapsed (operator : String) (input : Input) (suspension : Suspension) :
    Computation Output := do
  match suspension.firstPoint? with
  | some p => return collapsedTo p.id p.reason
  | none => return collapsedTo (← Computation.ofAction Action.freshPoint) .null
where
  collapsedTo (id : PointId) (reason : Json) : Output :=
    .evaluation (.suspended (.ofPoint ⟨id, operator, input.toJson, reason⟩))

def bodyResults (input : Input) (scope : Scope) (handle : Handle) (items : List Json) :
    Computation (List Evaluation) :=
  let body := bodyOf input
  let whole := scope.child (.array items)
  Computation.joinAll (items.map fun item => handle.evaluate body (whole.child item))

def map : AwaitingBody :=
  fun input scope handle => do
    match ← items "map" input scope handle with
    | .error output => return output
    | .ok items =>
        match Evaluation.join (← bodyResults input scope handle items) with
        | .done mapped => return .value mapped
        | .suspended suspension => collapsed "map" input suspension

/-- The items whose verdict is truthy, or the first suspended verdict. -/
def keep : List (Json × Evaluation) → Except Suspension (List Json)
  | [] => .ok []
  | (item, verdict) :: rest =>
      match verdict with
      | .done value => (keep rest).map fun kept => if truthy value then item :: kept else kept
      | .suspended suspension => .error suspension

def filter : AwaitingBody :=
  fun input scope handle => do
    match ← items "filter" input scope handle with
    | .error output => return output
    | .ok items =>
        let verdicts ← bodyResults input scope handle items
        match keep (items.zip verdicts) with
        | .ok kept => return .value (.array kept)
        | .error suspension => collapsed "filter" input suspension

def stepData (accumulator current : Json) : Json :=
  .object [("accumulator", accumulator), ("current", current)]

/-- The body applied to one item after the other, in scopes inside `whole`. -/
def fold (input : Input) (handle : Handle) (whole : Scope) (accumulator : Json) :
    List Json → Computation Output
  | [] => pure (.value accumulator)
  | current :: rest => do
      match ← handle.evaluate (bodyOf input) (whole.child (stepData accumulator current)) with
      | .done value => fold input handle whole value rest
      | .suspended suspension => collapsed "reduce" input suspension

/-- A fold from the left.  It starts with the third argument if there is one, and otherwise with the
first item; without either the value is null. -/
def reduce : AwaitingBody :=
  fun input scope handle => do
    match ← items "reduce" input scope handle with
    | .error output => return output
    | .ok items =>
        let whole := scope.child (.array items)
        match input.argumentNodes[2]? with
        | none =>
            match items with
            | [] => return .value .null
            | first :: rest => fold input handle whole first rest
        | some node =>
            match ← handle.evaluate node scope with
            | .done initial => fold input handle whole initial items
            | .suspended suspension =>
                return .evaluation (.suspended (.ofArguments "reduce" input.toJson
                  [.done (.array items), .ofLogic (bodyOf input), suspension.root]))

/-- Whether some item has truth value `stop`, as `stop` or its opposite. -/
def firstTruth (operator : String) (stop : Bool) (input : Input) (handle : Handle) (whole : Scope) :
    List Json → Computation Output
  | [] => pure (.value (.bool !stop))
  | item :: rest => do
      match ← handle.evaluate (bodyOf input) (whole.child item) with
      | .done value =>
          if truthy value == stop then return .value (.bool stop)
          else firstTruth operator stop input handle whole rest
      | .suspended suspension => collapsed operator input suspension

/-- The operator `some` stops at the first truthy item, `every` at the first falsy one. -/
def anyAll (operator : String) (stop : Bool) : AwaitingBody :=
  fun input scope handle => do
    match ← items operator input scope handle with
    | .error output => return output
    | .ok items => firstTruth operator stop input handle (scope.child (.array items)) items

def iterationEntries : List Entry := [
  lazyEntry "map" map,
  lazyEntry "filter" filter,
  lazyEntry "reduce" reduce,
  lazyEntry "some" (anyAll "some" true),
  lazyEntry "every" (anyAll "every" false)]

end DecisionLogic.Standard
