import DecisionLogic.Logic

/-!
# Suspensions

A suspension is a partly evaluated tree: finished results, the points where an operator yielded,
logic that was not reached, and calls that wait for their arguments.  Given a value for each of
its points, it turns into the logic that continues the evaluation; finished results become
literals, so nothing that ran already can run again.
-/

namespace DecisionLogic

/-- One operator invocation that waits for a value. -/
structure SuspensionPoint where
  id : PointId
  operator : String
  /-- The input the operator received; the raw arguments when it does not have them evaluated. -/
  input : Json
  reason : Json

inductive PartialTree where
  | done (value : Json)
  | point (point : SuspensionPoint)
  | sequence (items : List PartialTree)
  | pending (logic : Json)
  /-- An operator whose arguments are suspended; it has not run yet. -/
  | call (operator : String) (input : Json) (args : PartialTree)

structure Suspension where
  root : PartialTree

/-- The outcome of an evaluation that did not fail. -/
inductive Evaluation where
  | done (value : Json)
  | suspended (suspension : Suspension)

namespace PartialTree

mutual

def points : PartialTree → List SuspensionPoint
  | .done _ => []
  | .point p => [p]
  | .sequence items => itemPoints items
  | .pending _ => []
  | .call _ _ args => args.points

def itemPoints : List PartialTree → List SuspensionPoint
  | [] => []
  | item :: items => item.points ++ itemPoints items

end

def ofLogic (node : Logic) : PartialTree :=
  .pending node.toJson

def ofEvaluation : Evaluation → PartialTree
  | .done value => .done value
  | .suspended suspension => suspension.root

end PartialTree

abbrev Replacements := List (PointId × Json)

def Replacements.insert (replacements : Replacements) (id : PointId) (value : Json) :
    Replacements :=
  if replacements.any fun entry => entry.1 = id then
    replacements.map fun entry => if entry.1 = id then (id, value) else entry
  else replacements ++ [(id, value)]

namespace PartialTree

mutual

/-- The logic that continues a partial tree, and how many of its points were answered. -/
def rebuild (replacements : Replacements) : PartialTree → Except Failure (Logic × Nat)
  | .done value => .ok (.literal value, 0)
  | .pending logic => .ok (Logic.parse logic, 0)
  | .point p =>
      match replacements.lookup p.id with
      | some value => .ok (.literal value, 1)
      | none => .error (.resume (.unanswered p.id p.operator))
  | .sequence items =>
      (rebuildItems replacements items).map fun (nodes, used) => (.sequence nodes, used)
  | .call operator _ args =>
      (args.rebuild replacements).map fun (node, used) => (.operation operator node, used)

def rebuildItems (replacements : Replacements) :
    List PartialTree → Except Failure (List Logic × Nat)
  | [] => .ok ([], 0)
  | item :: items =>
      match item.rebuild replacements with
      | .error failure => .error failure
      | .ok (node, used) =>
          (rebuildItems replacements items).map fun (nodes, more) => (node :: nodes, used + more)

end

end PartialTree

namespace Suspension

def ofPoint (point : SuspensionPoint) : Suspension :=
  ⟨.point point⟩

/-- The suspension of a call of `operator` whose arguments are suspended. -/
def withinCall (suspension : Suspension) (operator : String) (input : Json) : Suspension :=
  ⟨.call operator input suspension.root⟩

/-- The suspension of an operator that evaluates its own arguments and was not through with them;
`args` is the argument list it is given when it continues. -/
def ofArguments (operator : String) (input : Json) (args : List PartialTree) : Suspension :=
  ⟨.call operator input (.sequence args)⟩

def points (suspension : Suspension) : List SuspensionPoint :=
  suspension.root.points

@[simp] theorem points_ofPoint (p : SuspensionPoint) : (ofPoint p).points = [p] := by
  simp [points, ofPoint, PartialTree.points]

@[simp] theorem points_withinCall (suspension : Suspension) (operator : String) (input : Json) :
    (suspension.withinCall operator input).points = suspension.points := by
  simp [points, withinCall, PartialTree.points]

def firstPoint? (suspension : Suspension) : Option SuspensionPoint :=
  suspension.points.head?

def operator? (suspension : Suspension) : Option String :=
  suspension.firstPoint?.map SuspensionPoint.operator

/-- The finished elements of a suspended sequence, none in the place of each other element. -/
def partialResults? (suspension : Suspension) : Option (List (Option Json)) :=
  match suspension.root with
  | .sequence items => some (items.map fun item =>
      match item with
      | .done value => some value
      | _ => none)
  | _ => none

/-- The logic that continues the evaluation with a value in the place of each point.  Values that
belong to no point are refused; they are counted, in a 64-bit word, as those left over when each
point took one. -/
def toLogic (suspension : Suspension) (replacements : Replacements) : Except Failure Logic :=
  match suspension.root.rebuild replacements with
  | .error failure => .error failure
  | .ok (node, used) =>
      if used = replacements.length then .ok node
      else
        let leftOver := UInt64.ofNat replacements.length - UInt64.ofNat used
        .error (.resume (.unmatched leftOver.toNat))

end Suspension

namespace Evaluation

def isSuspended : Evaluation → Bool
  | .done _ => false
  | .suspended _ => true

def value? : Evaluation → Option Json
  | .done value => some value
  | .suspended _ => none

/-- The outcome of a sequence from those of its elements: the array of their values, or, if one of
them is suspended, a suspended sequence that keeps the values of the others. -/
def join (results : List Evaluation) : Evaluation :=
  if results.any isSuspended then
    .suspended ⟨.sequence (results.map PartialTree.ofEvaluation)⟩
  else .done (.array (results.filterMap value?))

theorem join_map_done (values : List Json) :
    join (values.map .done) = .done (.array values) := by
  have hany : (values.map done).any isSuspended = false := by
    simp [isSuspended]
  have hvalues : (values.map done).filterMap value? = values := by
    rw [List.filterMap_map]
    exact List.filterMap_some
  simp [join, hany, hvalues]

end Evaluation
end DecisionLogic
