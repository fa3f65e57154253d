import DecisionLogic.Proofs.Attribution.Evaluation
import DecisionLogic.Program.Basic

/-!
# Compilation under marked operators

Marks change nothing about how a tree is compiled: a call that fails while it is completed stays in
the tree, whatever it fails with.  So both engines make the same of it, up to their operators, and
executing it does the same until a failure surfaces.
-/

namespace DecisionLogic

open Failure (Surfaces)

variable {raises : Marks} {engine engine' : Engine}

/-- A failure that is no operator's own arises in both runs. -/
def Failure.Shared (failure failure' : Failure) : Prop :=
  failure = failure' ∧ failure.OtherKind

theorem Failure.Shared.surfaces {failure failure' : Failure} (hshared : failure.Shared failure') :
    Surfaces raises failure failure' := by
  obtain ⟨rfl, hother⟩ := hshared
  exact .other hother

/-! ## Flags -/

namespace Operator.Marked

variable {failures : Failure → Failure → Prop} {operator operator' : Operator}

theorem isInlinable_eq (hmarked : operator.Marked failures operator') :
    operator'.isInlinable = operator.isInlinable := by
  rw [hmarked.same]
  rfl

theorem needs_add (hmarked : operator.Marked failures operator') (needs : Needs) :
    needs.add operator' = needs.add operator := by
  rw [hmarked.same]
  rfl

end Operator.Marked

/-! ## Classification -/

namespace Needs

mutual

theorem scan_tracks (hmarked : engine.Marked raises engine') :
    ∀ (node : Logic) (needs : Needs) (strict : Bool) (depth : Nat),
      Tracked Failure.Shared Eq (scan engine needs strict depth node)
        (scan engine' needs strict depth node)
  | .literal value, needs, strict, depth => by
      unfold scan
      rw [← hmarked.options]
      split
      · exact .error ⟨rfl, trivial⟩
      · exact .ok rfl
  | .sequence items, needs, strict, depth => by
      unfold scan
      rw [← hmarked.options]
      split
      · exact .error ⟨rfl, trivial⟩
      · exact scanItems_tracks hmarked items needs strict (depth + 1)
  | .operation name args, needs, strict, depth => by
      unfold scan
      rw [← hmarked.options]
      split
      · exact .error ⟨rfl, trivial⟩
      · have hoperators := hmarked.operators name
        generalize engine.registry.lookup name = known at hoperators ⊢
        generalize engine'.registry.lookup name = known' at hoperators ⊢
        cases hoperators with
        | none =>
            dsimp only
            split
            · exact .error ⟨rfl, trivial⟩
            · exact scan_tracks hmarked args needs false (depth + 1)
        | @some operator operator' hoperator =>
            have hraw : operator'.rawData = operator.rawData := by rw [hoperator.same]
            dsimp only
            rw [hoperator.needs_add, hraw]
            exact scan_tracks hmarked args _ _ (depth + 1)

theorem scanItems_tracks (hmarked : engine.Marked raises engine') :
    ∀ (items : List Logic) (needs : Needs) (strict : Bool) (depth : Nat),
      Tracked Failure.Shared Eq (scanItems engine needs strict depth items)
        (scanItems engine' needs strict depth items)
  | [], needs, strict, depth => .ok rfl
  | item :: items, needs, strict, depth => by
      have hfirst := scan_tracks hmarked item needs strict depth
      unfold scanItems
      generalize scan engine needs strict depth item = first at hfirst ⊢
      generalize scan engine' needs strict depth item = first' at hfirst ⊢
      cases hfirst with
      | error hshared => exact .error hshared
      | ok hsame =>
          dsimp only
          rw [hsame]
          exact scanItems_tracks hmarked items _ strict depth

end

end Needs

/-! ## Steps of compiling -/

namespace Building

/-- The steps find the same, in the same world, and fail alike. -/
abbrev Tracks {α β : Type} (R : α → β → Prop) (step : Building α) (step' : Building β) : Prop :=
  StepTracks Failure.Shared R step step'

/-- What comes behind a check of the depth. -/
theorem tracks_guard {α β : Type} {R : α → β → Prop} {condition : Prop} [Decidable condition]
    {failure : Failure} {next : Unit → Building α} {next' : Unit → Building β}
    (hother : failure.OtherKind) (hnext : (next ()).Tracks R (next' ())) :
    Tracks R (if condition then throw failure >>= next else next ())
      (if condition then throw failure >>= next' else next' ()) := by
  split
  · exact fun _ => ⟨.error ⟨rfl, hother⟩, rfl⟩
  · exact hnext

theorem tracks_get : Tracks Eq (get : Building Findings) get :=
  fun _ => ⟨.ok rfl, rfl⟩

theorem tracks_set (findings : Findings) :
    Tracks Eq (set findings : Building Unit) (set findings) :=
  fun _ => ⟨.ok rfl, rfl⟩

theorem observe_tracks {failures : Failure → Failure → Prop} {operator operator' : Operator}
    (hmarked : operator.Marked failures operator') :
    (observe operator).Tracks Eq (observe operator') := by
  intro findings
  have hneeds := hmarked.needs_add findings.needs
  refine ⟨.ok rfl, ?_⟩
  change { findings with needs := findings.needs.add operator } =
    { findings with needs := findings.needs.add operator' }
  rw [hneeds]

theorem scan_tracks (hmarked : engine.Marked raises engine') (strict : Bool) (depth : Nat)
    (node : Logic) : (scan engine strict depth node).Tracks Eq (scan engine' strict depth node) := by
  refine tracks_get.bind ?_
  rintro findings _ rfl
  have hneeds := Needs.scan_tracks hmarked node findings.needs strict depth
  refine (StepTracks.lift hneeds).bind ?_
  rintro needs _ rfl
  exact tracks_set _

/-- A call that fails while it is completed stays in the tree, with its failure or its mark. -/
theorem complete_tracks (hmarked : engine.Marked raises engine') (hkept : raises.Kept)
    {name : String} {operator operator' : Operator}
    (hoperator : operator.Marked (raises name) operator') (input : Json) :
    (complete engine name operator input).Tracks Eq
      (complete engine' name operator' input) := by
  refine tracks_get.bind ?_
  rintro findings _ rfl
  have hhandle := hmarked.handle_tracks (hmarked.evaluate_tracks hkept engine.levels)
  have hcall := callOperator_tracks hkept hoperator (.evaluated input) (.ofData .null) hhandle
    { findings.world with bag := [], cancelled := false }
  rw [hmarked.levels_eq] at hcall
  dsimp only
  rw [hmarked.levels_eq]
  generalize callOperator name operator _ _ _ _ = after at hcall ⊢
  generalize callOperator name operator' _ _ _ _ = after' at hcall ⊢
  cases hcall with
  | finished world hresult =>
      cases hresult with
      | error _ => exact (tracks_set _).bind fun _ _ _ => .pure rfl
      | @ok evaluation _ hsame =>
          rw [← hsame]
          cases evaluation with
          | done value => exact (tracks_set _).bind fun _ _ _ => .pure rfl
          | suspended suspension => exact (tracks_set _).bind fun _ _ _ => .pure rfl
  | waiting world _ _ => exact (tracks_set _).bind fun _ _ _ => .pure rfl

end Building

/-! ## Compiled trees -/

namespace Compiled

mutual

/-- The same tree with the operators of the other engine. -/
inductive Marked (raises : Marks) : Compiled → Compiled → Prop
  | literal (value : Json) : Marked raises (.literal value) (.literal value)
  | sequence {items items' : List Compiled} (hitems : MarkedItems raises items items') :
      Marked raises (.sequence items) (.sequence items')
  | call {name : String} {operator operator' : Operator} {args args' : Compiled} (raw : Logic)
      (hoperator : operator.Marked (raises name) operator') (hargs : Marked raises args args') :
      Marked raises (.call name operator args raw) (.call name operator' args' raw)
  | rawCall {name : String} {operator operator' : Operator} (raw : Logic)
      (hoperator : operator.Marked (raises name) operator') :
      Marked raises (.rawCall name operator raw) (.rawCall name operator' raw)

inductive MarkedItems (raises : Marks) : List Compiled → List Compiled → Prop
  | nil : MarkedItems raises [] []
  | cons {item item' : Compiled} {items items' : List Compiled} (hitem : Marked raises item item')
      (hitems : MarkedItems raises items items') :
      MarkedItems raises (item :: items) (item' :: items')

end

theorem Marked.literal?_eq {compiled compiled' : Compiled}
    (hmarked : compiled.Marked raises compiled') : compiled.literal? = compiled'.literal? := by
  cases hmarked with
  | literal value => rfl
  | sequence hitems => rfl
  | call raw hoperator hargs => rfl
  | rawCall raw hoperator => rfl

theorem MarkedItems.literals?_eq {items items' : List Compiled}
    (hmarked : MarkedItems raises items items') : literals? items = literals? items' := by
  induction items generalizing items' with
  | nil =>
      cases hmarked
      rfl
  | cons item items ih =>
      cases hmarked with
      | cons hitem hitems =>
          unfold literals?
          rw [hitem.literal?_eq, ih hitems]

open Building

mutual

theorem ofLogic_tracks (hmarked : engine.Marked raises engine') (hkept : raises.Kept) :
    ∀ (node : Logic) (depth : Nat),
      (ofLogic engine depth node).Tracks (Marked raises) (ofLogic engine' depth node)
  | .literal value, depth => by
      unfold ofLogic
      rw [← hmarked.options]
      exact tracks_guard trivial (.pure (.literal value))
  | .sequence items, depth => by
      unfold ofLogic
      rw [← hmarked.options]
      refine tracks_guard trivial ?_
      refine (ofItems_tracks hmarked hkept items (depth + 1)).bind fun compiled compiled' h => ?_
      rw [h.literals?_eq]
      split
      · exact .pure (.literal _)
      · exact .pure (.sequence h)
  | .operation name args, depth => by
      unfold ofLogic
      rw [← hmarked.options]
      refine tracks_guard trivial ?_
      have hoperators := hmarked.operators name
      generalize engine.registry.lookup name = known at hoperators ⊢
      generalize engine'.registry.lookup name = known' at hoperators ⊢
      cases hoperators with
      | none => exact .throw ⟨rfl, trivial⟩
      | @some operator operator' hoperator =>
          have htraverse : operator'.traverse = operator.traverse := by rw [hoperator.same]
          have hraw : operator'.rawData = operator.rawData := by rw [hoperator.same]
          dsimp only
          rw [htraverse, hoperator.isInlinable_eq, hraw]
          refine (observe_tracks hoperator).bind fun _ _ _ => ?_
          split
          · refine (ofLogic_tracks hmarked hkept args (depth + 1)).bind ?_
            intro compiled compiled' hcompiled
            cases hcompiled with
            | literal input =>
                dsimp only
                split
                · refine (complete_tracks hmarked hkept hoperator input).bind ?_
                  rintro value? _ rfl
                  cases value? with
                  | some value => exact .pure (.literal value)
                  | none => exact .pure (.call args hoperator (.literal input))
                · exact .pure (.call args hoperator (.literal input))
            | sequence hitems => exact .pure (.call args hoperator (.sequence hitems))
            | call raw hinner hargs =>
                exact .pure (.call args hoperator (.call raw hinner hargs))
            | rawCall raw hinner => exact .pure (.call args hoperator (.rawCall raw hinner))
          · refine (scan_tracks hmarked _ (depth + 1) args).bind fun _ _ _ => ?_
            exact .pure (.rawCall args hoperator)

theorem ofItems_tracks (hmarked : engine.Marked raises engine') (hkept : raises.Kept) :
    ∀ (items : List Logic) (depth : Nat),
      (ofItems engine depth items).Tracks (MarkedItems raises) (ofItems engine' depth items)
  | [], _ => .pure .nil
  | item :: items, depth => by
      unfold ofItems
      refine (ofLogic_tracks hmarked hkept item depth).bind fun _ _ hitem => ?_
      exact (ofItems_tracks hmarked hkept items depth).bind fun _ _ hitems =>
        .pure (.cons hitem hitems)

end

mutual

theorem execute_tracks (hmarked : engine.Marked raises engine') (hkept : raises.Kept)
    (scope : Scope) : ∀ {compiled compiled' : Compiled}, Marked raises compiled compiled' →
      (execute engine scope compiled).Tracks (Surfaces raises) Eq (execute engine' scope compiled')
  | _, _, .literal value => by
      unfold execute
      exact .checked (.other trivial) (.pure rfl)
  | _, _, .sequence hitems => by
      unfold execute
      refine .checked (.other trivial) ?_
      have hresults := executeItems_tracks hmarked hkept scope hitems
      refine (Computation.Tracks.joinAll_eq hresults).bind ?_
      rintro results _ rfl
      exact .pure rfl
  | _, _, .call raw hoperator hargs => by
      unfold execute
      refine .checked (.other trivial) ?_
      refine (execute_tracks hmarked hkept scope hargs).bind ?_
      rintro evaluation _ rfl
      cases evaluation with
      | done value =>
          rw [← hmarked.levels_eq]
          exact callOperator_tracks hkept hoperator _ scope
            (hmarked.handle_tracks (hmarked.evaluate_tracks hkept engine.levels))
      | suspended suspension => exact .pure rfl
  | _, _, .rawCall raw hoperator => by
      unfold execute
      rw [← hmarked.levels_eq]
      refine .checked (.other trivial) ?_
      exact callOperator_tracks hkept hoperator _ scope
        (hmarked.handle_tracks (hmarked.evaluate_tracks hkept engine.levels))

theorem executeItems_tracks (hmarked : engine.Marked raises engine') (hkept : raises.Kept)
    (scope : Scope) : ∀ {items items' : List Compiled}, MarkedItems raises items items' →
      List.Forall₂ (Computation.Tracks (Surfaces raises) Eq) (executeItems engine scope items)
        (executeItems engine' scope items')
  | _, _, .nil => .nil
  | _, _, .cons hitem hitems =>
      .cons (execute_tracks hmarked hkept scope hitem)
        (executeItems_tracks hmarked hkept scope hitems)

end

end Compiled
end DecisionLogic
