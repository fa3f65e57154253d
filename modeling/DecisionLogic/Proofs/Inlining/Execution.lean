import DecisionLogic.Proofs.Inlining.Completions

/-!
# Executions call by call

An execution invokes operators at the calls of its tree.  Executed through other invocations a tree
shows which ones it depends on: those at the places of its calls, and no others.
-/

namespace DecisionLogic

/-- What is invoked for the call at each place. -/
abbrev Invocations : Type :=
  List Nat → String → Operator → Input → Scope → Handle → Computation Evaluation

namespace Compiled

/-- A node at which an operator is invoked. -/
def isCall : Compiled → Bool
  | .call _ _ _ _ => true
  | .rawCall _ _ _ => true
  | _ => false

mutual

/-- Execute a tree with these invocations in place of calls of the operators. -/
def executeThrough (engine : Engine) (scope : Scope) :
    Invocations → Compiled → Computation Evaluation
  | _, .literal value => do
      Computation.checkCancelled
      return .done value
  | invoke, .sequence items => do
      Computation.checkCancelled
      return .join (← Computation.joinAll (executeItemsThrough engine scope 0 invoke items))
  | invoke, .call name operator args raw => do
      Computation.checkCancelled
      match ← executeThrough engine scope (fun place => invoke (0 :: place)) args with
      | .done value =>
          invoke [] name operator (.evaluated value) scope
            (engine.handle (engine.evaluate engine.levels))
      | .suspended suspension => return .suspended (suspension.withinCall name raw.toJson)
  | invoke, .rawCall name operator raw => do
      Computation.checkCancelled
      invoke [] name operator (.raw raw) scope (engine.handle (engine.evaluate engine.levels))

def executeItemsThrough (engine : Engine) (scope : Scope) :
    Nat → Invocations → List Compiled → List (Computation Evaluation)
  | _, _, [] => []
  | i, invoke, item :: items =>
      executeThrough engine scope (fun place => invoke (i :: place)) item ::
        executeItemsThrough engine scope (i + 1) invoke items

end

variable {engine : Engine} {scope : Scope}

mutual

theorem executeThrough_callOperator : ∀ tree : Compiled,
    executeThrough engine scope (fun _ => callOperator) tree = execute engine scope tree
  | .literal value => rfl
  | .sequence items => by
      rw [executeThrough, execute, executeItemsThrough_callOperator]
  | .call name operator args raw => by
      have hargs := executeThrough_callOperator args
      rw [executeThrough, execute]
      exact hargs ▸ rfl
  | .rawCall name operator raw => rfl

theorem executeItemsThrough_callOperator : ∀ (i : Nat) (items : List Compiled),
    executeItemsThrough engine scope i (fun _ => callOperator) items =
      executeItems engine scope items
  | _, [] => rfl
  | i, item :: items => by
      rw [executeItemsThrough, executeItems, executeThrough_callOperator item,
        executeItemsThrough_callOperator (i + 1) items]

end

mutual

/-- An execution depends on the invocations at the calls of its tree alone. -/
theorem executeThrough_congr : ∀ {tree : Compiled} {invoke invoke' : Invocations},
    (∀ place found, tree.node? place = some found → found.isCall = true →
      invoke place = invoke' place) →
        executeThrough engine scope invoke tree = executeThrough engine scope invoke' tree
  | .literal value, _, _, _ => rfl
  | .sequence items, invoke, invoke', hcalls => by
      have hitems : executeItemsThrough engine scope 0 invoke items =
          executeItemsThrough engine scope 0 invoke' items := by
        refine executeItemsThrough_congr 0 fun k item place found hitem hplace hcall => ?_
        rw [Nat.zero_add]
        exact hcalls _ found (node?_cons.mpr ⟨item, hitem, hplace⟩) hcall
      rw [executeThrough, executeThrough, hitems]
  | .call name operator args raw, invoke, invoke', hcalls => by
      have hargs : executeThrough engine scope (fun place => invoke (0 :: place)) args =
          executeThrough engine scope (fun place => invoke' (0 :: place)) args :=
        executeThrough_congr fun place found hplace hcall =>
          hcalls (0 :: place) found (node?_cons.mpr ⟨args, rfl, hplace⟩) hcall
      rw [executeThrough, executeThrough, hargs, hcalls [] _ rfl rfl]
  | .rawCall name operator raw, invoke, invoke', hcalls => by
      rw [executeThrough, executeThrough, hcalls [] _ rfl rfl]

theorem executeItemsThrough_congr : ∀ {items : List Compiled} {invoke invoke' : Invocations}
    (i : Nat), (∀ k item place found, items[k]? = some item → item.node? place = some found →
      found.isCall = true → invoke ((i + k) :: place) = invoke' ((i + k) :: place)) →
        executeItemsThrough engine scope i invoke items =
          executeItemsThrough engine scope i invoke' items
  | [], _, _, _, _ => rfl
  | item :: items, invoke, invoke', i, hcalls => by
      have hitem : executeThrough engine scope (fun place => invoke (i :: place)) item =
          executeThrough engine scope (fun place => invoke' (i :: place)) item :=
        executeThrough_congr fun place found hplace hcall =>
          hcalls 0 item place found rfl hplace hcall
      have hitems : executeItemsThrough engine scope (i + 1) invoke items =
          executeItemsThrough engine scope (i + 1) invoke' items := by
        refine executeItemsThrough_congr (i + 1) fun k item' place found hitem' hplace hcall => ?_
        rw [Nat.add_right_comm, Nat.add_assoc]
        exact hcalls (k + 1) item' place found hitem' hplace hcall
      rw [executeItemsThrough, executeItemsThrough, hitem, hitems]

end

/-- Where a tree has no call, it does not matter what is invoked. -/
theorem executeThrough_of_not_call {tree : Compiled} {place : List Nat} {invoke : Invocations}
    (hplace : ∀ found, tree.node? place = some found → found.isCall = false)
    (hinvoke : ∀ other, other ≠ place → invoke other = callOperator) :
    executeThrough engine scope invoke tree = execute engine scope tree := by
  rw [← executeThrough_callOperator]
  refine executeThrough_congr fun other found hfound hcall => hinvoke other ?_
  rintro rfl
  rw [hplace found hfound] at hcall
  cases hcall

end Compiled
end DecisionLogic
