import DecisionLogic.Proofs.Alike.Operator
import DecisionLogic.Proofs.Standard.Bodies

/-!
# Bodies that evaluate their arguments, in two scopes

These bodies look at the scope only by way of evaluations.  Those of the arguments are in the scope
itself, and those of the body of an iteration in the scope of an item, inside the scope of all
items, inside the scope itself.
-/

namespace DecisionLogic

variable {name : String} {input : Input} {s t whole whole' : Scope} {handle : Handle}

/-- Calls in two scopes are the same if what the bodies do is. -/
theorem callOperator_congr {operator : Operator}
    (hbody : operator.body.run input s handle = operator.body.run input t handle) :
    callOperator name operator input s handle = callOperator name operator input t handle := by
  unfold callOperator
  unfold OperatorBody.run at hbody
  cases hcases : operator.body with
  | immediate | awaiting | both =>
      simp only [hcases] at hbody
      simp only [hbody]

namespace Standard

theorem firstDeciding_congr {stop : Bool} {arguments : List Logic}
    (hevaluate : ∀ node ∈ arguments, handle.evaluate node s = handle.evaluate node t)
    (last : Json) :
    firstDeciding name stop input s handle last arguments =
      firstDeciding name stop input t handle last arguments := by
  induction arguments generalizing last with
  | nil => rfl
  | cons node rest ih =>
      have hnode := hevaluate node List.mem_cons_self
      have hrest := ih fun other hother => hevaluate other (List.mem_cons_of_mem node hother)
      simp only [firstDeciding, hnode, hrest]

theorem branches_congr {arguments : List Logic}
    (hevaluate : ∀ node ∈ arguments, handle.evaluate node s = handle.evaluate node t) :
    branches name input s handle arguments = branches name input t handle arguments := by
  induction arguments using branches.induct with
  | case1 => rfl
  | case2 otherwise => simp only [branches, hevaluate otherwise List.mem_cons_self]
  | case3 condition result rest ih =>
      have hcondition := hevaluate condition (by simp)
      have hresult := hevaluate result (by simp)
      have hrest := ih fun other hother => hevaluate other (by simp [hother])
      simp only [branches, hcondition, hresult, hrest]

theorem items_congr
    (hfirst : ∀ node, input.argumentNodes[0]? = some node →
      handle.evaluate node s = handle.evaluate node t) :
    items name input s handle = items name input t handle := by
  unfold items
  cases harguments : input.argumentNodes with
  | nil => rfl
  | cons node rest =>
      have hnode := hfirst node (by simp [harguments])
      simp only [hnode]

section Bodies

variable
  (hbody : ∀ item, handle.evaluate (bodyOf input) (whole.child item) =
    handle.evaluate (bodyOf input) (whole'.child item))

include hbody

theorem fold_congr (accumulator : Json) (items : List Json) :
    fold input handle whole accumulator items = fold input handle whole' accumulator items := by
  induction items generalizing accumulator with
  | nil => rfl
  | cons current rest ih => simp only [fold, hbody, ih]

theorem firstTruth_congr {stop : Bool} (items : List Json) :
    firstTruth name stop input handle whole items =
      firstTruth name stop input handle whole' items := by
  induction items with
  | nil => rfl
  | cons item rest ih => simp only [firstTruth, hbody, ih]

end Bodies

theorem choice_congr {body : AwaitingBody} (hchoice : ChoiceBody name body)
    (hevaluate : ∀ node ∈ input.argumentNodes,
      handle.evaluate node s = handle.evaluate node t) :
    body input s handle = body input t handle := by
  cases hchoice with
  | and | or => exact firstDeciding_congr hevaluate .null
  | «if» | ternary => exact branches_congr hevaluate

theorem iteration_congr {body : AwaitingBody} (hiteration : IterationBody name body)
    (harguments : ∀ (i : Nat) (node : Logic), i ≠ 1 → input.argumentNodes[i]? = some node →
      handle.evaluate node s = handle.evaluate node t)
    (hbody : ∀ (items : List Json) (item : Json),
      handle.evaluate (bodyOf input) ((s.child (.array items)).child item) =
        handle.evaluate (bodyOf input) ((t.child (.array items)).child item)) :
    body input s handle = body input t handle := by
  have hitems (name : String) : items name input s handle = items name input t handle :=
    items_congr fun node => harguments 0 node (by decide)
  have hresults (items : List Json) :
      bodyResults input s handle items = bodyResults input t handle items := by
    simp only [bodyResults, hbody]
  cases hiteration with
  | map => simp only [map, hitems, hresults]
  | filter => simp only [filter, hitems, hresults]
  | reduce =>
      have hfold (items : List Json) := fold_congr (hbody items)
      unfold reduce
      rw [hitems]
      cases hinitial : input.argumentNodes[2]? with
      | none => simp only [hfold]
      | some node => simp only [harguments 2 node (by decide) hinitial, hfold]
  | some | every =>
      have htruth (name : String) (stop : Bool) (items : List Json) :
          firstTruth name stop input handle (s.child (.array items)) items =
            firstTruth name stop input handle (t.child (.array items)) items :=
        firstTruth_congr (hbody items) items
      simp only [anyAll, hitems, htruth]

end Standard
end DecisionLogic
