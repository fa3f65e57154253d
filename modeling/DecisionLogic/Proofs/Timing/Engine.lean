import DecisionLogic.Proofs.Alike.Standard
import DecisionLogic.Proofs.Congruence.Engine
import DecisionLogic.Proofs.Congruence.Standard
import DecisionLogic.Proofs.Resumption.Standing
import DecisionLogic.Proofs.Timing.Coincidence

/-!
# Engines that differ in timing only

Two engines whose operators respond alike to the value of their arguments and the scope, but may
take different numbers of polls to do so, each time and for each value that is still computed.
Evaluations by both coincide.  The trees of suspended outcomes are the same but for the
identifiers, and those of the first engine are among the ones that it drew.
-/

namespace DecisionLogic

variable {name : String} {input : Input} {args : Logic} {scope : Scope} {drawn : Multiset Nat}
  {s t : Suspension}

/-! ## Operators -/

/-- What comes of a call, once it is clear: a value, by itself or as an outcome, a reason to wait,
values that are still computed and may fail, or a failure. -/
inductive Response where
  | value (value : Json)
  | outcome (value : Json)
  | yields (reason : Json)
  | pending (answers : List (Option Json))
  | fails

/-- After finitely many polls the computation returns the answer; it fails if there is none. -/
def Computation.Returns (answer : Option Json) (computation : Computation Json) : Prop :=
  computation.Concludes True fun _ result => result.toOption = answer

inductive Response.Gives : Response → Except Failure Output → Prop
  | value (value : Json) : Gives (.value value) (.ok (.value value))
  | outcome (value : Json) : Gives (.outcome value) (.ok (.evaluation (.done value)))
  | yields (reason : Json) : Gives (.yields reason) (.ok (.yield reason))
  | pending {answers : List (Option Json)} {computations : List (Computation Json)}
      (hreturn : List.Forall₂ Computation.Returns answers computations) :
      Gives (.pending answers) (.ok (.pending computations))
  | fails (failure : Failure) : Gives .fails (.error failure)

/-- The operator has its arguments evaluated, waits for finitely many polls, and then does what the
response to its input and scope says. -/
structure Operator.Responds (operator : Operator) (response : Json → Scope → Response) : Prop where
  traverse : operator.traverse = true
  gives : ∀ (input : Json) (scope : Scope) (handle : Handle),
    (operator.body.run (.evaluated input) scope handle).Concludes True fun _ result =>
      (response input scope).Gives result

/-- Two engines know the same standard operator by a name, or operators that respond alike. -/
inductive Operator.SameButTiming (name : String) : Option Operator → Option Operator → Prop
  | unknown : SameButTiming name none none
  | standard {operator : Operator}
      (hlookup : Standard.registry.lookup name = some operator) :
      SameButTiming name (some operator) (some operator)
  | responding {operator operator' : Operator} {response : Json → Scope → Response}
      (hresponds : operator.Responds response) (hresponds' : operator'.Responds response) :
      SameButTiming name (some operator) (some operator')

structure Engine.SameButTiming (engine engine' : Engine) : Prop where
  options : engine.options = engine'.options
  operators : ∀ name,
    Operator.SameButTiming name (engine.registry.lookup name) (engine'.registry.lookup name)

/-! ## Suspensions -/

/-- The trees differ in identifiers only, and those of the first one are among the ones drawn. -/
structure Linkage.Renaming (drawn : Multiset Nat) (s t : Suspension) : Prop where
  alike : s.root.Alike (fun _ _ => True) t.root
  ids : (s.points.map SuspensionPoint.id : Multiset PointId) ≤ drawn.map PointId.fresh

namespace Linkage.Renaming

theorem lasting : Reading.Lasting Renaming := by
  intro drawn more s t hrenaming
  refine ⟨hrenaming.alike, hrenaming.ids.trans ?_⟩
  rw [Multiset.map_add]
  exact Multiset.le_add_left _ _

theorem ofPoint {p q : SuspensionPoint} (halike : p.Alike (fun _ _ => True) q)
    (hid : p.id ∈ drawn.map PointId.fresh) :
    Renaming drawn (.ofPoint p) (.ofPoint q) := by
  refine ⟨halike, ?_⟩
  rw [Suspension.points_ofPoint]
  exact Multiset.singleton_le.mpr hid

/-- Points that were just drawn. -/
theorem ofFresh {id id' : PointId} (hdraws : Congruence.timing.Draws drawn id id') (name : String)
    (input reason : Json) :
    Renaming drawn (.ofPoint ⟨id, name, input, reason⟩) (.ofPoint ⟨id', name, input, reason⟩) := by
  refine ofPoint ⟨trivial, rfl, rfl, rfl⟩ ?_
  rw [hdraws]
  exact Multiset.mem_singleton_self id

theorem withinCall (hrenaming : Renaming drawn s t) (name : String) (input : Json) :
    Renaming drawn (s.withinCall name input) (t.withinCall name input) := by
  refine ⟨⟨rfl, rfl, hrenaming.alike⟩, ?_⟩
  rw [Suspension.points_withinCall]
  exact hrenaming.ids

theorem ofArguments {args args' : List PartialTree} (hrenaming : Renaming drawn s t)
    (halike : PartialTree.AlikeItems (fun _ _ => True) args args')
    (hpoints : PartialTree.itemPoints args = s.points) (name : String) (input : Json) :
    Renaming drawn (.ofArguments name input args) (.ofArguments name input args') := by
  refine ⟨⟨rfl, rfl, halike⟩, ?_⟩
  have hwhole : (Suspension.ofArguments name input args).points = s.points := by
    simp [Suspension.points, Suspension.ofArguments, PartialTree.points, hpoints]
  rw [hwhole]
  exact hrenaming.ids

theorem firstPoints (hrenaming : Renaming drawn s t) (name : String) (input : Json) :
    Option.Rel
      (fun p q : SuspensionPoint => Renaming drawn (.ofPoint ⟨p.id, name, input, p.reason⟩)
        (.ofPoint ⟨q.id, name, input, q.reason⟩)) s.firstPoint? t.firstPoint? := by
  have hpoints : List.Forall₂ _ s.points t.points := hrenaming.alike.points
  have hids := hrenaming.ids
  unfold Suspension.firstPoint?
  generalize s.points = points at hpoints hids ⊢
  generalize t.points = points' at hpoints ⊢
  cases hpoints with
  | nil => exact .none
  | cons hfirst _ =>
      refine .some (ofPoint ⟨trivial, rfl, rfl, hfirst.reason⟩ (Multiset.mem_of_le hids ?_))
      simp

theorem ofEvaluation {evaluation evaluation' : Evaluation}
    (hlinked : evaluation.Linked Renaming drawn evaluation') :
    Renaming drawn ⟨.ofEvaluation evaluation⟩ ⟨.ofEvaluation evaluation'⟩ := by
  cases hlinked with
  | done _ value => exact ⟨rfl, Multiset.zero_le _⟩
  | suspended hrenaming => exact hrenaming

theorem joins : Evaluation.Joins Renaming Renaming := by
  intro drawn results results' hresults hany
  clear hany
  induction hresults with
  | nil => exact ⟨trivial, by simp [Suspension.points, PartialTree.points, PartialTree.itemPoints]⟩
  | cons hfirst _ ih =>
      have hitem := ofEvaluation hfirst
      refine ⟨⟨hitem.alike, ih.alike⟩, ?_⟩
      have hids := add_le_add hitem.ids ih.ids
      simpa [Suspension.points, PartialTree.points, PartialTree.itemPoints] using hids

end Linkage.Renaming

open Congruence

theorem assembles_timing (name : String) (input : Input) :
    timing.Assembles (fun _ => Linkage.Renaming) Linkage.Renaming Linkage.Renaming name input := by
  have hreached (unreached : List Logic) (drawn : Multiset Nat) (s t : Suspension)
      (hrenaming : Linkage.Renaming drawn s t) :
      Linkage.Renaming drawn (.ofArguments name input.toJson (s.root :: unreached.map .ofLogic))
        (.ofArguments name input.toJson (t.root :: unreached.map .ofLogic)) := by
    have halike : PartialTree.AlikeItems (fun _ _ => True) (s.root :: unreached.map .ofLogic)
        (t.root :: unreached.map .ofLogic) :=
      ⟨hrenaming.alike, PartialTree.alikeItems_ofLogic unreached⟩
    refine hrenaming.ofArguments halike ?_ name input.toJson
    simp [PartialTree.itemPoints, Suspension.points]
  refine ⟨⟨Linkage.Renaming.lasting, Linkage.Renaming.lasting, ?_, ?_, Linkage.Renaming.joins, ?_⟩,
    fun _ _ _ _ _ => id, ?_⟩
  · exact fun _ rest drawn s t _ => hreached rest drawn s t
  · intro _ items drawn s t _ _ hrenaming
    have halike : PartialTree.AlikeItems (fun _ _ => True)
        [.done (.array items), .ofLogic (Standard.bodyOf input), s.root]
        [.done (.array items), .ofLogic (Standard.bodyOf input), t.root] :=
      ⟨rfl, rfl, hrenaming.alike, trivial⟩
    refine hrenaming.ofArguments halike ?_ name input.toJson
    simp [PartialTree.itemPoints, PartialTree.points, Suspension.points]
  · intro drawn s t hrenaming
    refine collapsed_rel Linkage.Renaming.lasting (hrenaming.firstPoints name input.toJson) ?_
    exact fun more id id' hdraws => .ofFresh hdraws name input.toJson .null
  · exact fun _ _ unreached drawn s t _ => hreached unreached drawn s t

/-! ## Evaluation -/

theorem coincides_of_returns {answer : Option Json} {c d : Computation Json}
    (hleft : c.Returns answer) (hright : d.Returns answer) :
    timing.Rel Reading.equal c d := by
  refine Computation.Coincides.of_concludes hleft hright ?_
  rintro _ _ x y hx rfl
  cases x with
  | ok x =>
      cases y with
      | ok y => exact .ok (Option.some.inj hx)
      | error failure => cases hx
  | error failure =>
      cases y with
      | ok y => cases hx
      | error failure' => exact .error failure failure'

theorem pending_timing {answers : List (Option Json)} {cs ds : List (Computation Json)}
    (hleft : List.Forall₂ Computation.Returns answers cs)
    (hright : List.Forall₂ Computation.Returns answers ds) :
    List.Forall₂ (timing.Rel Reading.equal) cs ds := by
  induction hleft generalizing ds with
  | nil =>
      cases hright
      exact .nil
  | cons hfirst _ ih =>
      cases hright with
      | cons hfirst' hrest' => exact .cons (coincides_of_returns hfirst hfirst') (ih hrest')

theorem responding_timing {operator operator' : Operator} {response : Json → Scope → Response}
    (hresponds : operator.Responds response) (hresponds' : operator'.Responds response)
    (value : Json) (scope : Scope) (handle handle' : Handle) :
    timing.Rel (timing.Outputs Linkage.Renaming)
      (operator.body.run (.evaluated value) scope handle)
      (operator'.body.run (.evaluated value) scope handle') := by
  refine Computation.Coincides.of_concludes (hresponds.gives value scope handle)
    (hresponds'.gives value scope handle') ?_
  intro effect effect' x y hx hy
  generalize response value scope = given at hx hy
  cases hx with
  | value value =>
      cases hy
      exact .ok (.value _ value)
  | outcome value =>
      cases hy
      exact .ok (.evaluation (.done _ value))
  | yields reason =>
      cases hy
      exact .ok (.yield _ reason)
  | pending hreturn =>
      cases hy with
      | pending hreturn' => exact .ok (.pending _ (pending_timing hreturn hreturn'))
  | fails failure =>
      cases hy with
      | fails failure' => exact .error failure failure'

theorem callOperator_timing {operator operator' : Operator} {handle handle' : Handle}
    (hoptions : handle.options = handle'.options)
    (hbody : timing.Rel (timing.Outputs Linkage.Renaming) (operator.body.run input scope handle)
      (operator'.body.run input scope handle')) :
    timing.Rel (Evaluation.Linked Linkage.Renaming)
      (callOperator name operator input scope handle)
      (callOperator name operator' input scope handle') := by
  refine callOperator_rel Linkage.Renaming.lasting hoptions (.record _ _) (fun _ _ _ => trivial)
    (fun _ => trivial) ?_ hbody
  exact fun _ drawn id id' reason hdraws => .ofFresh hdraws name input.toJson reason

theorem lazyBody_timing {body : AwaitingBody} (hlazy : Standard.LazyBody name body)
    {handle handle' : Handle}
    (hevaluate : ∀ node scope, timing.Rel (Evaluation.Linked Linkage.Renaming)
      (handle.evaluate node scope) (handle'.evaluate node scope)) :
    timing.Rel (timing.Outputs Linkage.Renaming) (body input scope handle)
      (body input scope handle') :=
  lazyBody_rel (fun node _ => hevaluate node scope) (fun _ _ => hevaluate _ _) hlazy
    (assembles_timing name input)

theorem compatible_timing {engine engine' : Engine} (hsame : engine.SameButTiming engine') :
    timing.Compatible engine engine' (fun _ _ scope scope' => scope = scope')
      fun _ => Linkage.Renaming := by
  refine ⟨fun _ => Linkage.Renaming.lasting, fun _ _ _ _ => trivial, ?_, ?_, ?_⟩
  · intro levels items scope scope' hscope item _
    exact hscope
  · intro levels items scope scope' _
    exact Linkage.Renaming.joins.weaken fun _ _ _ ⟨_, _, hrenaming⟩ => hrenaming
  · rintro levels name args scope _ rfl
    have hoperator := hsame.operators name
    generalize engine.registry.lookup name = known at hoperator ⊢
    generalize engine'.registry.lookup name = known' at hoperator ⊢
    have hwithin (drawn : Multiset Nat) (s t : Suspension) (h : Linkage.Renaming drawn s t) :
        Linkage.Renaming drawn (s.withinCall name args.toJson) (t.withinCall name args.toJson) :=
      h.withinCall name args.toJson
    cases hoperator with
    | unknown => exact .unknown trivial
    | responding hresponds hresponds' =>
        refine .traversing hresponds.traverse hresponds'.traverse rfl hwithin fun value _ _ _ => ?_
        exact callOperator_timing hsame.options (responding_timing hresponds hresponds' value ..)
    | standard hlookup =>
        cases Standard.standardOperator_of_lookup hlookup with
        | arguments _ f =>
            refine .traversing rfl rfl rfl hwithin fun value _ _ _ => ?_
            exact callOperator_timing hsame.options (answer_rel fun _ _ => trivial)
        | scope _ f =>
            refine .traversing rfl rfl rfl hwithin fun value _ _ _ => ?_
            exact callOperator_timing hsame.options (answer_rel fun _ _ => trivial)
        | preserve =>
            refine .raw rfl rfl fun _ _ _ => callOperator_timing hsame.options ?_
            exact timing.pure (.value 0 _)
        | lazy hlazy =>
            refine .raw rfl rfl fun evaluate evaluate' hbelow =>
              callOperator_timing hsame.options (timing.cancellable ?_)
            exact lazyBody_timing hlazy fun node scope => hbelow node scope scope rfl

end DecisionLogic
