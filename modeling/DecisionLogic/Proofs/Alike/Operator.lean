import DecisionLogic.Proofs.Alike.Computation
import DecisionLogic.Engine.Evaluate

/-!
# Uniform operators

An operator is uniform when its bodies, started side by side, are alike: it looks at the bag and the
token of its invocation, at its input, scope and options, and at what comes out when it has nodes
evaluated, but not at the supply of points, the identifiers drawn from it or the calls so far.
-/

namespace DecisionLogic

/-! ## The nodes of an input -/

inductive Logic.Within : Logic → Logic → Prop
  | self (node : Logic) : Within node node
  | item {node item : Logic} {items : List Logic} (hitem : item ∈ items)
      (hwithin : Within node item) : Within node (.sequence items)
  | args {node args : Logic} {name : String} (hwithin : Within node args) :
      Within node (.operation name args)

/-- The nodes that an operator finds in its raw arguments, and literals. -/
def Input.Owns (input : Input) (node : Logic) : Prop :=
  (∃ value, node = .literal value) ∨ ∃ args, input = .raw args ∧ node.Within args

theorem Input.owns_of_mem_argumentNodes {input : Input} {node : Logic}
    (hmem : node ∈ input.argumentNodes) : input.Owns node := by
  cases input with
  | evaluated value =>
      left
      cases value with
      | array items =>
          obtain ⟨item, _, rfl⟩ := List.mem_map.mp hmem
          exact ⟨item, rfl⟩
      | _ => exact ⟨_, List.mem_singleton.mp hmem⟩
  | raw args =>
      right
      refine ⟨args, rfl, ?_⟩
      cases args with
      | sequence items => exact .item hmem (.self node)
      | _ =>
          rw [List.mem_singleton.mp hmem]
          exact .self _

/-! ## Outputs, handles and bodies -/

inductive Output.Alike (pairs : Pairing) : Output → Output → Prop where
  | value (value : Json) : Alike pairs (.value value) (.value value)
  | pending {cs ds : List (Computation Json)}
      (hcomputations : List.Forall₂ (Computation.AlikeFrom Likeness.same pairs) cs ds) :
      Alike pairs (.pending cs) (.pending ds)
  | yield (reason : Json) : Alike pairs (.yield reason) (.yield reason)
  | evaluation {evaluation evaluation' : Evaluation}
      (hevaluation : evaluation.Alike pairs.Ids evaluation') :
      Alike pairs (.evaluation evaluation) (.evaluation evaluation')

namespace Likeness

def output : Likeness Output Output :=
  Output.Alike

theorem output_lasting : output.Lasting := by
  intro pairs more x y hsub houtput
  cases houtput with
  | value value => exact .value value
  | pending hcomputations => exact .pending (hcomputations.imp fun _ _ h => h.weaken hsub)
  | yield reason => exact .yield reason
  | evaluation hevaluation => exact .evaluation (evaluation_lasting _ _ _ _ hsub hevaluation)

end Likeness

structure Handle.Alike (nodes : Logic → Prop) (handle handle' : Handle) : Prop where
  options : handle.options = handle'.options
  operatorCount : handle.operatorCount = handle'.operatorCount
  evaluate : ∀ node, nodes node → ∀ scope,
    Computation.AlikeFrom Likeness.evaluation [] (handle.evaluate node scope)
      (handle'.evaluate node scope)

def OperatorBody.run (body : OperatorBody) (input : Input) (scope : Scope) (handle : Handle) :
    Computation Output :=
  match body with
  | .immediate body => Computation.ofAction (body input scope handle)
  | .awaiting body => Computation.cancellable (body input scope handle)
  | .both _ body => Computation.cancellable (body input scope handle)

/-- The operator does the same in all runs that it cannot tell apart, where it has only the given
nodes evaluated. -/
def Operator.Uniform (nodes : Input → Logic → Prop) (operator : Operator) : Prop :=
  ∀ (input : Input) (scope : Scope) (handle handle' : Handle),
    handle.Alike (nodes input) handle' →
      Computation.AlikeFrom Likeness.output [] (operator.body.run input scope handle)
        (operator.body.run input scope handle')

theorem Handle.Alike.mono {nodes fewer : Logic → Prop} {handle handle' : Handle}
    (halike : handle.Alike nodes handle') (hsub : ∀ node, fewer node → nodes node) :
    handle.Alike fewer handle' :=
  ⟨halike.options, halike.operatorCount, fun node hnode => halike.evaluate node (hsub node hnode)⟩

theorem Operator.Uniform.mono {nodes more : Input → Logic → Prop} {operator : Operator}
    (huniform : operator.Uniform nodes) (hsub : ∀ input node, nodes input node → more input node) :
    operator.Uniform more :=
  fun input scope handle handle' halike =>
    huniform input scope handle handle' (halike.mono (hsub input))

/-! ## Calls -/

theorem callOperator_alike {pairs : Pairing} {name : String} {operator : Operator} {input : Input}
    {scope : Scope} {handle handle' : Handle} (hoptions : handle.options = handle'.options)
    (hbody : Computation.AlikeFrom Likeness.output pairs (operator.body.run input scope handle)
      (operator.body.run input scope handle')) :
    Computation.AlikeFrom Likeness.evaluation pairs
      (callOperator name operator input scope handle)
      (callOperator name operator input scope handle') := by
  unfold callOperator
  refine .bind (.record _) ?_
  intro more _ _ hsub _
  refine .bind ((hbody.mapFailure _).weaken hsub) ?_
  intro more' output output' _ houtput
  cases houtput with
  | value value => exact .pure Likeness.evaluation_lasting (.done value)
  | evaluation hevaluation => exact .pure Likeness.evaluation_lasting hevaluation
  | pending hcomputations =>
      refine .bind ((Computation.AlikeFrom.joinAll Likeness.same_lasting
        hcomputations).cancellable.mapFailure _) ?_
      intro last values values' _ hvalues
      obtain rfl : values = values' := List.forall₂_eq_eq_eq ▸ hvalues
      exact .pure Likeness.evaluation_lasting (.done _)
  | yield reason =>
      simp only [hoptions]
      split
      · refine .bind .freshPoint ?_
        intro last id id' _ hid
        refine .pure Likeness.evaluation_lasting (.suspended ?_)
        exact ⟨hid, rfl, rfl, rfl⟩
      · exact .fail _

end DecisionLogic
