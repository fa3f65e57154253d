import DecisionLogic.Proofs.Alike.Operator
import DecisionLogic.Proofs.Standard.Operators

/-!
# The standard operators are uniform

They have only literals and nodes of their own raw arguments evaluated.
-/

namespace DecisionLogic

namespace PartialTree

variable {ids : PointId → PointId → Prop}

theorem alikeItems_ofLogic (nodes : List Logic) :
    AlikeItems ids (nodes.map ofLogic) (nodes.map ofLogic) := by
  induction nodes with
  | nil => trivial
  | cons node nodes ih => exact ⟨rfl, ih⟩

end PartialTree

namespace Standard

variable {pairs : Pairing} {operator : String} {input : Input} {scope whole : Scope}
  {handle handle' : Handle}

theorem suspendedAt_alike {s t : Suspension} (hroot : s.root.Alike pairs.Ids t.root)
    (unreached : List Logic) :
    (suspendedAt operator input s unreached).Alike pairs
      (suspendedAt operator input t unreached) := by
  refine .evaluation (.suspended ?_)
  exact ⟨rfl, rfl, hroot, PartialTree.alikeItems_ofLogic unreached⟩

section Nodes

variable {nodes : Logic → Prop} (hhandle : handle.Alike nodes handle')

include hhandle

theorem evaluate_alike {node : Logic} (hnode : nodes node) (scope : Scope) :
    Computation.AlikeFrom Likeness.evaluation pairs (handle.evaluate node scope)
      (handle'.evaluate node scope) :=
  (hhandle.evaluate node hnode scope).weaken (List.nil_subset _)

theorem firstDeciding_alike {stop : Bool} {arguments : List Logic}
    (harguments : ∀ node ∈ arguments, nodes node) (last : Json) :
    Computation.AlikeFrom Likeness.output pairs
      (firstDeciding operator stop input scope handle last arguments)
      (firstDeciding operator stop input scope handle' last arguments) := by
  induction arguments generalizing pairs last with
  | nil => exact .pure Likeness.output_lasting (.value last)
  | cons node rest ih =>
      refine .bind (evaluate_alike hhandle (harguments node List.mem_cons_self) scope) ?_
      intro more evaluation evaluation' _ hevaluation
      cases hevaluation with
      | done value =>
          dsimp only
          split
          · exact .pure Likeness.output_lasting (.value value)
          · exact ih (fun other hother => harguments other (List.mem_cons_of_mem _ hother)) value
      | suspended hroot => exact .pure Likeness.output_lasting (suspendedAt_alike hroot rest)

theorem branches_alike {arguments : List Logic} (harguments : ∀ node ∈ arguments, nodes node) :
    Computation.AlikeFrom Likeness.output pairs (branches operator input scope handle arguments)
      (branches operator input scope handle' arguments) := by
  have hpassed {more : Pairing} {node : Logic} (hnode : nodes node) :
      Computation.AlikeFrom Likeness.output more
        (do return Output.evaluation (← handle.evaluate node scope))
        (do return Output.evaluation (← handle'.evaluate node scope)) := by
    refine .bind (evaluate_alike hhandle hnode scope) ?_
    intro more' evaluation evaluation' _ hevaluation
    exact .pure Likeness.output_lasting (.evaluation hevaluation)
  induction arguments using branches.induct generalizing pairs with
  | case1 => exact .pure Likeness.output_lasting (.value .null)
  | case2 otherwise => exact hpassed (harguments otherwise List.mem_cons_self)
  | case3 condition result rest ih =>
      refine .bind (evaluate_alike hhandle (harguments condition List.mem_cons_self) scope) ?_
      intro more evaluation evaluation' _ hevaluation
      cases hevaluation with
      | done value =>
          dsimp only
          split
          · exact hpassed (harguments result (by simp))
          · exact ih fun other hother => harguments other (by simp [hother])
      | suspended hroot => exact .pure Likeness.output_lasting (suspendedAt_alike hroot _)

end Nodes

/-! ## Iteration -/

inductive ItemsAlike (pairs : Pairing) :
    Except Output (List Json) → Except Output (List Json) → Prop
  | ok (items : List Json) : ItemsAlike pairs (.ok items) (.ok items)
  | error {output output' : Output} (houtput : output.Alike pairs output') :
      ItemsAlike pairs (.error output) (.error output')

theorem itemsAlike_lasting : Likeness.Lasting ItemsAlike := by
  intro pairs more x y hsub hitems
  cases hitems with
  | ok items => exact .ok items
  | error houtput => exact .error (Likeness.output_lasting _ _ _ _ hsub houtput)

theorem collapsed_alike {s t : Suspension} (hroot : s.root.Alike pairs.Ids t.root) :
    Computation.AlikeFrom Likeness.output pairs (collapsed operator input s)
      (collapsed operator input t) := by
  have hcollapsedTo {more : Pairing} {a b : PointId} (hids : more.Ids a b) (reason : Json) :
      (collapsed.collapsedTo operator input a reason).Alike more
        (collapsed.collapsedTo operator input b reason) :=
    .evaluation (.suspended ⟨hids, rfl, rfl, rfl⟩)
  have hpoints := hroot.points
  unfold collapsed Suspension.firstPoint? Suspension.points
  cases hs : s.root.points with
  | nil =>
      rw [hs] at hpoints
      rw [List.forall₂_nil_left_iff.mp hpoints]
      refine .bind .freshPoint ?_
      intro more a b _ hids
      exact .pure Likeness.output_lasting (hcollapsedTo hids .null)
  | cons p rest =>
      rw [hs] at hpoints
      obtain ⟨q, rest', hp, -, ht⟩ := List.forall₂_cons_left_iff.mp hpoints
      rw [ht]
      dsimp only [List.head?_cons]
      rw [hp.reason]
      exact .pure Likeness.output_lasting (hcollapsedTo hp.id q.reason)

theorem keep_alike (items : List Json) {verdicts verdicts' : List Evaluation}
    (hverdicts : List.Forall₂ (Evaluation.Alike pairs.Ids) verdicts verdicts') :
    (∃ kept, keep (items.zip verdicts) = .ok kept ∧ keep (items.zip verdicts') = .ok kept) ∨
      ∃ s t : Suspension, keep (items.zip verdicts) = .error s ∧
        keep (items.zip verdicts') = .error t ∧ s.root.Alike pairs.Ids t.root := by
  induction hverdicts generalizing items with
  | nil => exact .inl ⟨[], by simp [keep], by simp [keep]⟩
  | cons hverdict _ ih =>
      cases items with
      | nil => exact .inl ⟨[], rfl, rfl⟩
      | cons item items =>
          cases hverdict with
          | done value =>
              rcases ih items with ⟨kept, hleft, hright⟩ | ⟨s, t, hleft, hright, hroot⟩
              · exact .inl ⟨_, by simp [keep, hleft]; rfl, by simp [keep, hright]; rfl⟩
              · exact .inr ⟨s, t, by simp [keep, hleft]; rfl, by simp [keep, hright]; rfl, hroot⟩
          | suspended hroot => exact .inr ⟨_, _, rfl, rfl, hroot⟩

section Iteration

variable (hhandle : handle.Alike input.Owns handle')

include hhandle

theorem items_alike :
    Computation.AlikeFrom ItemsAlike pairs (items operator input scope handle)
      (items operator input scope handle') := by
  unfold items
  cases harguments : input.argumentNodes with
  | nil => exact .pure itemsAlike_lasting (.ok [])
  | cons node rest =>
      have hnode : input.Owns node := Input.owns_of_mem_argumentNodes (by simp [harguments])
      refine .bind (evaluate_alike hhandle hnode scope) ?_
      intro more evaluation evaluation' _ hevaluation
      cases hevaluation with
      | done value => cases value <;> exact .pure itemsAlike_lasting (.ok _)
      | suspended hroot => exact .pure itemsAlike_lasting (.error (suspendedAt_alike hroot rest))

theorem body_alike (scope : Scope) :
    Computation.AlikeFrom Likeness.evaluation pairs (handle.evaluate (bodyOf input) scope)
      (handle'.evaluate (bodyOf input) scope) := by
  apply evaluate_alike hhandle
  rcases bodyOf_eq_or_mem input with hnull | hmem
  · exact .inl ⟨.null, hnull⟩
  · exact Input.owns_of_mem_argumentNodes hmem

theorem bodyResults_alike (items : List Json) :
    Computation.AlikeFrom Likeness.evaluation.list pairs (bodyResults input scope handle items)
      (bodyResults input scope handle' items) := by
  apply Computation.AlikeFrom.joinAll Likeness.evaluation_lasting
  rw [List.forall₂_map_left_iff, List.forall₂_map_right_iff, List.forall₂_same]
  intro item _
  exact body_alike hhandle _

theorem map_alike :
    Computation.AlikeFrom Likeness.output pairs (map input scope handle)
      (map input scope handle') := by
  refine .bind (items_alike hhandle) ?_
  intro more listed listed' _ hlisted
  cases hlisted with
  | error houtput => exact .pure Likeness.output_lasting houtput
  | ok items =>
      refine .bind (bodyResults_alike hhandle items) ?_
      intro more' results results' _ hresults
      have hjoin := Evaluation.alike_join hresults
      generalize Evaluation.join results = joined at hjoin ⊢
      generalize Evaluation.join results' = joined' at hjoin ⊢
      cases hjoin with
      | done mapped => exact .pure Likeness.output_lasting (.value mapped)
      | suspended hroot => exact collapsed_alike hroot

theorem filter_alike :
    Computation.AlikeFrom Likeness.output pairs (filter input scope handle)
      (filter input scope handle') := by
  refine .bind (items_alike hhandle) ?_
  intro more listed listed' _ hlisted
  cases hlisted with
  | error houtput => exact .pure Likeness.output_lasting houtput
  | ok items =>
      refine .bind (bodyResults_alike hhandle items) ?_
      intro more' verdicts verdicts' _ hverdicts
      rcases keep_alike items hverdicts with
        ⟨kept, hleft, hright⟩ | ⟨s, t, hleft, hright, hroot⟩
      · simp only [hleft, hright]
        exact .pure Likeness.output_lasting (.value _)
      · simp only [hleft, hright]
        exact collapsed_alike hroot

theorem fold_alike (accumulator : Json) (items : List Json) :
    Computation.AlikeFrom Likeness.output pairs (fold input handle whole accumulator items)
      (fold input handle' whole accumulator items) := by
  induction items generalizing pairs accumulator with
  | nil => exact .pure Likeness.output_lasting (.value accumulator)
  | cons current rest ih =>
      refine .bind (body_alike hhandle _) ?_
      intro more evaluation evaluation' _ hevaluation
      cases hevaluation with
      | done value => exact ih value
      | suspended hroot => exact collapsed_alike hroot

theorem reduce_alike :
    Computation.AlikeFrom Likeness.output pairs (reduce input scope handle)
      (reduce input scope handle') := by
  refine .bind (items_alike hhandle) ?_
  intro more listed listed' _ hlisted
  cases hlisted with
  | error houtput => exact .pure Likeness.output_lasting houtput
  | ok items =>
      dsimp only
      cases hinitial : input.argumentNodes[2]? with
      | none =>
          cases items with
          | nil => exact .pure Likeness.output_lasting (.value .null)
          | cons first rest => exact fold_alike hhandle first rest
      | some node =>
          have hnode : input.Owns node :=
            Input.owns_of_mem_argumentNodes (List.mem_of_getElem? hinitial)
          refine .bind (evaluate_alike hhandle hnode scope) ?_
          intro more' evaluation evaluation' _ hevaluation
          cases hevaluation with
          | done initial => exact fold_alike hhandle initial items
          | suspended hroot =>
              refine .pure Likeness.output_lasting (.evaluation (.suspended ?_))
              exact ⟨rfl, rfl, rfl, rfl, hroot, trivial⟩

theorem firstTruth_alike {stop : Bool} (items : List Json) :
    Computation.AlikeFrom Likeness.output pairs
      (firstTruth operator stop input handle whole items)
      (firstTruth operator stop input handle' whole items) := by
  induction items generalizing pairs with
  | nil => exact .pure Likeness.output_lasting (.value _)
  | cons item rest ih =>
      refine .bind (body_alike hhandle _) ?_
      intro more evaluation evaluation' _ hevaluation
      cases hevaluation with
      | done value =>
          dsimp only
          split
          · exact .pure Likeness.output_lasting (.value _)
          · exact ih
      | suspended hroot => exact collapsed_alike hroot

theorem anyAll_alike {stop : Bool} :
    Computation.AlikeFrom Likeness.output pairs (anyAll operator stop input scope handle)
      (anyAll operator stop input scope handle') := by
  refine .bind (items_alike hhandle) ?_
  intro more listed listed' _ hlisted
  cases hlisted with
  | error houtput => exact .pure Likeness.output_lasting houtput
  | ok items => exact firstTruth_alike hhandle items

theorem lazyBody_alike {body : AwaitingBody} (hbody : LazyBody operator body) :
    Computation.AlikeFrom Likeness.output pairs (body input scope handle)
      (body input scope handle') := by
  cases hbody with
  | shortCircuit _ stop =>
      exact firstDeciding_alike hhandle (fun _ => Input.owns_of_mem_argumentNodes) .null
  | conditional _ => exact branches_alike hhandle fun _ => Input.owns_of_mem_argumentNodes
  | map => exact map_alike hhandle
  | filter => exact filter_alike hhandle
  | reduce => exact reduce_alike hhandle
  | some => exact anyAll_alike hhandle
  | every => exact anyAll_alike hhandle

end Iteration

theorem computed_alike (result : Except Failure Json) :
    Computation.AlikeFrom Likeness.output pairs
      (Computation.ofAction (ExceptT.mk fun world => (result.map .value, world)))
      (Computation.ofAction (ExceptT.mk fun world => (result.map .value, world))) := by
  intro more w v _ hsame
  refine .finished (.refl hsame) ?_
  cases result with
  | ok value => exact .ok (.value value)
  | error failure => exact .error failure

theorem StandardOperator.uniform {name : String} {operator : Operator}
    (hoperator : StandardOperator name operator) : operator.Uniform Input.Owns := by
  intro input scope handle handle' hhandle
  cases hoperator with
  | arguments name f => exact computed_alike (f input.args)
  | scope name f => exact computed_alike (f input.args scope)
  | preserve => exact computed_alike (.ok input.toJson)
  | lazy hbody => exact (lazyBody_alike hhandle hbody).cancellable

end Standard
end DecisionLogic
