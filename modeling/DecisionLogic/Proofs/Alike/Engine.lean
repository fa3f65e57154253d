import DecisionLogic.Proofs.Alike.Operator
import DecisionLogic.Proofs.Program.Compilation

/-!
# Evaluation and execution are alike with themselves

Where all operators are uniform, an evaluation that is started twice cannot be told apart from
itself, and neither can the execution of a compiled tree.
-/

namespace DecisionLogic

def Registry.Uniform (nodes : Input → Logic → Prop) (registry : Registry) : Prop :=
  ∀ name operator, registry.lookup name = some operator → operator.Uniform nodes

variable {engine : Engine} {pairs : Pairing} {nodes : Input → Logic → Prop}

theorem Engine.handle_alike {known : Logic → Prop}
    {evaluate evaluate' : Logic → Scope → Computation Evaluation}
    (hevaluate : ∀ node, known node → ∀ scope,
      Computation.AlikeFrom Likeness.evaluation [] (evaluate node scope) (evaluate' node scope)) :
    (engine.handle evaluate).Alike known (engine.handle evaluate') :=
  ⟨rfl, rfl, hevaluate⟩

theorem callOperator_alike_of_uniform {name : String} {operator : Operator} {input : Input}
    {scope : Scope} {handle handle' : Handle} (huniform : operator.Uniform nodes)
    (hhandle : handle.Alike (nodes input) handle') :
    Computation.AlikeFrom Likeness.evaluation pairs
      (callOperator name operator input scope handle)
      (callOperator name operator input scope handle') :=
  callOperator_alike hhandle.options
    ((huniform input scope handle handle' hhandle).weaken (List.nil_subset _))

theorem joined_alike {cs ds : List (Computation Evaluation)}
    (halike : List.Forall₂ (Computation.AlikeFrom Likeness.evaluation pairs) cs ds) :
    Computation.AlikeFrom Likeness.evaluation pairs
      (do return Evaluation.join (← Computation.joinAll cs))
      (do return Evaluation.join (← Computation.joinAll ds)) := by
  refine .bind (.joinAll Likeness.evaluation_lasting halike) ?_
  intro more results results' _ hresults
  exact .pure Likeness.evaluation_lasting (Evaluation.alike_join hresults)

/-- One level of evaluation, with `known` nodes below it. -/
theorem Engine.evaluate_alike_succ {levels levels' : Nat} {node : Logic} (known : Logic → Prop)
    (huniform : engine.registry.Uniform nodes)
    (hbelow : ∀ other, known other → ∀ scope, Computation.AlikeFrom Likeness.evaluation []
      (engine.evaluate levels other scope) (engine.evaluate levels' other scope))
    (hitems : ∀ items, node = .sequence items → ∀ item ∈ items, known item)
    (hargs : ∀ name args, node = .operation name args → known args)
    (hraw : ∀ name args, node = .operation name args →
      ∀ other, nodes (.raw args) other → known other)
    (hvalues : ∀ name args, node = .operation name args →
      ∀ value other, nodes (.evaluated value) other → known other) (scope : Scope) :
    Computation.AlikeFrom Likeness.evaluation [] (engine.evaluate (levels + 1) node scope)
      (engine.evaluate (levels' + 1) node scope) := by
  have hhandle : (engine.handle (engine.evaluate levels)).Alike known
      (engine.handle (engine.evaluate levels')) := handle_alike hbelow
  unfold evaluate
  refine .bind .checkCancelled ?_
  intro more _ _ _ _
  cases node with
  | literal value => exact .pure Likeness.evaluation_lasting (.done value)
  | sequence items =>
      apply joined_alike
      rw [List.forall₂_map_left_iff, List.forall₂_map_right_iff, List.forall₂_same]
      intro item hitem
      exact (hbelow item (hitems items rfl item hitem) scope).weaken (List.nil_subset _)
  | operation name args =>
      dsimp only
      cases hlookup : engine.registry.lookup name with
      | none => exact .fail _
      | some operator =>
          dsimp only
          split
          · refine .bind ((hbelow args (hargs name args rfl) scope).weaken
              (List.nil_subset _)) ?_
            intro more' evaluation evaluation' _ hevaluation
            cases hevaluation with
            | done value =>
                apply callOperator_alike_of_uniform (huniform name operator hlookup)
                exact hhandle.mono (hvalues name args rfl value)
            | suspended hroot =>
                exact .pure Likeness.evaluation_lasting (.suspended ⟨rfl, rfl, hroot⟩)
          · apply callOperator_alike_of_uniform (huniform name operator hlookup)
            exact hhandle.mono (hraw name args rfl)

theorem Engine.evaluate_zero_alike (node : Logic) (scope : Scope) :
    Computation.AlikeFrom Likeness.evaluation [] (engine.evaluate 0 node scope)
      (engine.evaluate 0 node scope) := by
  unfold evaluate
  refine .bind .checkCancelled ?_
  intro more _ _ _ _
  exact .fail _

theorem Engine.evaluate_alike_self (huniform : engine.registry.Uniform nodes) (levels : Nat)
    (node : Logic) (scope : Scope) :
    Computation.AlikeFrom Likeness.evaluation [] (engine.evaluate levels node scope)
      (engine.evaluate levels node scope) := by
  induction levels generalizing node scope with
  | zero => exact evaluate_zero_alike node scope
  | succ levels ih =>
      apply evaluate_alike_succ (fun _ => True) huniform
      · intro other _
        exact ih other
      all_goals intros; trivial

namespace Compiled

mutual

theorem execute_alike_self (huniform : engine.registry.Uniform nodes) (scope : Scope) :
    ∀ {node : Logic} {compiled : Compiled},
    Translates engine node compiled →
      Computation.AlikeFrom Likeness.evaluation [] (execute engine scope compiled)
        (execute engine scope compiled)
  | _, _, .literal value => by
      unfold execute
      refine .bind .checkCancelled fun more _ _ _ _ => ?_
      exact .pure Likeness.evaluation_lasting (.done value)
  | _, _, .folded hitems hvalues => by
      unfold execute
      refine .bind .checkCancelled fun more _ _ _ _ => ?_
      exact .pure Likeness.evaluation_lasting (.done _)
  | _, _, .inlined hlookup htraverse hargs hinlinable hactive hcall => by
      unfold execute
      refine .bind .checkCancelled fun more _ _ _ _ => ?_
      exact .pure Likeness.evaluation_lasting (.done _)
  | _, _, .sequence hitems => by
      unfold execute
      refine .bind .checkCancelled fun more _ _ _ _ => ?_
      apply joined_alike
      exact (executeItems_alike_self huniform scope hitems).imp fun _ _ h => h.weaken (List.nil_subset _)
  | _, _, .call hlookup htraverse hargs => by
      unfold execute
      refine .bind .checkCancelled fun more _ _ _ _ => ?_
      refine .bind ((execute_alike_self huniform scope hargs).weaken (List.nil_subset _)) ?_
      intro more' evaluation evaluation' _ hevaluation
      cases hevaluation with
      | done value =>
          apply callOperator_alike_of_uniform (huniform _ _ hlookup)
          exact Engine.handle_alike fun node _ => engine.evaluate_alike_self huniform _ node
      | suspended hroot =>
          exact .pure Likeness.evaluation_lasting (.suspended ⟨rfl, rfl, hroot⟩)
  | _, _, .rawCall hlookup htraverse => by
      unfold execute
      refine .bind .checkCancelled fun more _ _ _ _ => ?_
      apply callOperator_alike_of_uniform (huniform _ _ hlookup)
      exact Engine.handle_alike fun node _ => engine.evaluate_alike_self huniform _ node

theorem executeItems_alike_self (huniform : engine.registry.Uniform nodes) (scope : Scope) :
    ∀ {items : List Logic} {compiled : List Compiled},
    TranslatesItems engine items compiled →
      List.Forall₂ (Computation.AlikeFrom Likeness.evaluation [])
        (executeItems engine scope compiled) (executeItems engine scope compiled)
  | _, _, .nil => .nil
  | _, _, .cons hitem hitems =>
      .cons (execute_alike_self huniform scope hitem) (executeItems_alike_self huniform scope hitems)

end

end Compiled
end DecisionLogic
