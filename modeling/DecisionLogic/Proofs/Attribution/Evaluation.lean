import DecisionLogic.Proofs.Attribution.Operators
import DecisionLogic.Proofs.Congruence.Engine

/-!
# Evaluation under marked operators

Evaluating a tree with an engine and with one whose operators are marked does the same until a
failure surfaces, in one run the failure itself and in the other one its mark.
-/

namespace DecisionLogic

open Failure (Surfaces)

variable {raises : Marks}

/-- The engines differ in the bodies of their operators alone, and there only in the failures that
these raise. -/
structure Engine.Marked (raises : Marks) (engine engine' : Engine) : Prop where
  options : engine.options = engine'.options
  size : engine.registry.size = engine'.registry.size
  operators : ∀ name, Option.Rel (Operator.Marked (raises name)) (engine.registry.lookup name)
    (engine'.registry.lookup name)

namespace Engine.Marked

variable {engine engine' : Engine}

theorem handle_tracks (hmarked : engine.Marked raises engine')
    {evaluate evaluate' : Logic → Scope → Computation Evaluation}
    (hevaluate : ∀ node scope,
      (evaluate node scope).Tracks (Surfaces raises) Eq (evaluate' node scope)) :
    (engine.handle evaluate).Tracks (Surfaces raises) (engine'.handle evaluate') :=
  ⟨hmarked.options, hmarked.size, hevaluate⟩

theorem compatible (hmarked : engine.Marked raises engine') (hkept : raises.Kept) :
    (Congruence.tracking (Surfaces raises) (.other trivial)).Compatible engine engine'
      (fun _ _ scope scope' => scope = scope') fun _ => Reading.equal := by
  refine ⟨fun _ _ _ _ _ => id, ?_, fun _ _ _ _ hscope _ _ => hscope, ?_, ?_⟩
  · intro _ _ _ _
    rw [hmarked.options]
    exact .other trivial
  · intro levels items scope scope' _
    exact Congruence.joins_equal.weaken fun _ _ _ ⟨_, _, hsame⟩ => hsame
  · rintro levels name args scope _ rfl
    have hoperators := hmarked.operators name
    generalize engine.registry.lookup name = known at hoperators ⊢
    generalize engine'.registry.lookup name = known' at hoperators ⊢
    cases hoperators with
    | none => exact .unknown (.other trivial)
    | @some operator operator' hoperator =>
        have hcall (input : Input) (evaluate evaluate' : Logic → Scope → Computation Evaluation)
            (hbelow : Congruence.Below (Congruence.tracking (Surfaces raises) (.other trivial))
              (fun _ _ scope scope' => scope = scope') (fun _ => Reading.equal) levels evaluate
              evaluate') :
            (Congruence.tracking (Surfaces raises) (.other trivial)).Rel
              (Evaluation.Linked Reading.equal)
              (callOperator name operator input scope (engine.handle evaluate))
              (callOperator name operator' input scope (engine'.handle evaluate')) :=
          Congruence.tracking_linked <| callOperator_tracks hkept hoperator input scope <|
            hmarked.handle_tracks fun node scope =>
              Congruence.tracks_of_linked (hbelow node scope scope rfl)
        have htraverse' : operator'.traverse = operator.traverse := by rw [hoperator.same]
        cases htraverse : operator.traverse with
        | true =>
            refine .traversing htraverse (htraverse'.trans htraverse) rfl ?_ fun value => hcall _
            rintro drawn s _ rfl
            rfl
        | false => exact .raw htraverse (htraverse'.trans htraverse) (hcall _)

theorem evaluate_tracks (hmarked : engine.Marked raises engine') (hkept : raises.Kept)
    (levels : Nat) (node : Logic) (scope : Scope) :
    (engine.evaluate levels node scope).Tracks (Surfaces raises) Eq
      (engine'.evaluate levels node scope) :=
  Congruence.tracks_of_linked
    ((hmarked.compatible hkept).evaluate_rel levels node scope scope rfl)

theorem levels_eq (hmarked : engine.Marked raises engine') : engine.levels = engine'.levels := by
  unfold Engine.levels
  rw [hmarked.options]

theorem runLogic_tracks (hmarked : engine.Marked raises engine') (hkept : raises.Kept)
    (node : Logic) (data : Json) (above : List Json) :
    (engine.runLogic node data above).Tracks (Surfaces raises) Eq
      (engine'.runLogic node data above) := by
  unfold Engine.runLogic
  rw [← hmarked.levels_eq]
  exact hmarked.evaluate_tracks hkept _ node _

end Engine.Marked
end DecisionLogic
