import DecisionLogic.Proofs.Attribution.Tracking
import DecisionLogic.Proofs.Congruence.Standard
import DecisionLogic.Proofs.Standard.Bodies

/-!
# Operators whose failures are marked

To follow a failure from where it arises to where it surfaces, the operators that raise failures are
replaced by operators that raise marks instead and otherwise do the same.  Calls of the two then do
the same until one ends with a failure, and the mark that the other one ends with tells what was
raised, and by which operator.
-/

namespace DecisionLogic

/-- A failure of another kind than those that operators raise by themselves. -/
def Failure.OtherKind : Failure → Prop
  | .operatorExecution _ _ => False
  | _ => True

theorem Failure.OtherKind.final {failure : Failure} (hother : failure.OtherKind) :
    failure.Final := by
  intro name
  cases failure with
  | operatorExecution operator cause => exact hother.elim
  | _ => rfl

theorem Standard.Refuses.otherKind {failure : Failure} (hrefuses : Refuses failure) :
    failure.OtherKind := by
  cases hrefuses with
  | arguments operator text => trivial
  | path path field => trivial

/-- Which mark stands for which failure of the operator of each name. -/
abbrev Marks : Type :=
  String → Failure → Failure → Prop

/-- The failure that surfaces where the mark does. -/
inductive Failure.Surfaces (raises : Marks) : Failure → Failure → Prop
  | anonymous {name cause : String} {mark : Failure}
      (hraises : raises name (.anonymous cause) mark) :
      Surfaces raises (.operatorExecution name cause) mark
  | named {name : String} {failure mark : Failure} (hraises : raises name failure mark)
      (hnamed : ∀ cause, failure ≠ .anonymous cause) : Surfaces raises failure mark
  | other {failure : Failure} (hother : failure.OtherKind) : Surfaces raises failure failure

/-- Marks stay what they are on their way out, and an operator registered under the empty name
raises no anonymous failure. -/
structure Marks.Kept (raises : Marks) : Prop where
  final : ∀ name failure mark, raises name failure mark → mark.Final
  unnamed : ∀ cause mark, ¬ raises "" (.anonymous cause) mark

inductive Output.Tracks (F : Failure → Failure → Prop) : Output → Output → Prop
  | value (value : Json) : Tracks F (.value value) (.value value)
  | pending {cs ds : List (Computation Json)}
      (hcomputations : List.Forall₂ (Computation.Tracks F Eq) cs ds) :
      Tracks F (.pending cs) (.pending ds)
  | yield (reason : Json) : Tracks F (.yield reason) (.yield reason)
  | evaluation (evaluation : Evaluation) :
      Tracks F (.evaluation evaluation) (.evaluation evaluation)

structure Handle.Tracks (F : Failure → Failure → Prop) (handle handle' : Handle) : Prop where
  options : handle.options = handle'.options
  operatorCount : handle.operatorCount = handle'.operatorCount
  evaluate : ∀ node scope,
    (handle.evaluate node scope).Tracks F Eq (handle'.evaluate node scope)

/-- The second operator is the first one with marks for the failures that this one raises.  The
failures of nodes that they have evaluated are passed on, however these failures are related. -/
structure Operator.Marked (raises : Failure → Failure → Prop) (operator operator' : Operator) :
    Prop where
  same : operator' = { operator with body := operator'.body }
  body : ∀ F : Failure → Failure → Prop, (∀ failure, failure.OtherKind → F failure failure) →
    (∀ failure mark, raises failure mark → F failure mark) →
      ∀ input scope (handle handle' : Handle), handle.Tracks F handle' →
        (operator.body.run input scope handle).Tracks F (Output.Tracks F)
          (operator'.body.run input scope handle')

variable {raises : Marks}

theorem Handle.Tracks.mono {F G : Failure → Failure → Prop} {handle handle' : Handle}
    (htracks : handle.Tracks F handle') (hle : ∀ f g, F f g → G f g) :
    handle.Tracks G handle' :=
  ⟨htracks.options, htracks.operatorCount, fun node scope =>
    (htracks.evaluate node scope).mono hle fun _ _ => id⟩

/-! ## Failures on their way out -/

namespace Failure.Surfaces

variable {failure mark : Failure}

theorem within (hkept : raises.Kept) (hsurfaces : Surfaces raises failure mark) (name : String) :
    Surfaces raises (failure.within name) (mark.within name) := by
  cases hsurfaces with
  | @anonymous origin cause mark hraises =>
      have hname : origin ≠ "" := by
        rintro rfl
        exact hkept.unnamed cause mark hraises
      rw [hkept.final _ _ _ hraises, Failure.within, if_neg hname]
      exact .anonymous hraises
  | @named origin failure mark hraises hnamed =>
      have hfinal : failure.within name = failure := by
        cases failure with
        | operatorExecution operator cause =>
            have hoperator : operator ≠ "" := by
              rintro rfl
              exact hnamed cause rfl
            rw [Failure.within, if_neg hoperator]
        | _ => rfl
      rw [hkept.final _ _ _ hraises, hfinal]
      exact .named hraises hnamed
  | other hother =>
      rw [hother.final name]
      exact .other hother

/-- The operator's call puts the name on a failure that has none. -/
theorem of_raises (hkept : raises.Kept) {name : String} (hraises : raises name failure mark) :
    Surfaces raises (failure.within name) (mark.within name) := by
  rw [hkept.final _ _ _ hraises]
  cases failure with
  | operatorExecution operator cause =>
      by_cases hoperator : operator = ""
      · subst hoperator
        exact .anonymous hraises
      · rw [Failure.within, if_neg hoperator]
        refine .named hraises ?_
        rintro _ ⟨⟩
        exact hoperator rfl
  | _ => exact .named hraises nofun

end Failure.Surfaces

/-! ## Calls -/

theorem callOperator_tracks {name : String} {operator operator' : Operator} (hkept : raises.Kept)
    (hmarked : operator.Marked (raises name) operator') (input : Input) (scope : Scope)
    {handle handle' : Handle} (hhandle : handle.Tracks (Failure.Surfaces raises) handle') :
    (callOperator name operator input scope handle).Tracks (Failure.Surfaces raises) Eq
      (callOperator name operator' input scope handle') := by
  -- Inside the call a failure that the operator has just raised has no name yet.
  let inside (failure mark : Failure) : Prop :=
    failure.Surfaces raises mark ∨ raises name failure mark
  have hwithin (failure mark : Failure) (hinside : inside failure mark) :
      (failure.within name).Surfaces raises (mark.within name) := by
    rcases hinside with hsurfaces | hraises
    · exact hsurfaces.within hkept name
    · exact .of_raises hkept hraises
  have hbody := hmarked.body inside (fun _ hother => .inl (.other hother)) (fun _ _ => .inr)
    input scope handle handle' (hhandle.mono fun _ _ => .inl)
  have horigin : operator'.origin = operator.origin := by rw [hmarked.same]
  unfold callOperator
  rw [horigin, ← hhandle.options]
  refine .bind (R := Eq) (fun world => .finished _ (.ok rfl)) fun _ _ _ => ?_
  refine (hbody.mapFailure hwithin).bind fun output output' houtput => ?_
  cases houtput with
  | value value => exact .pure rfl
  | evaluation evaluation => exact .pure rfl
  | pending hcomputations =>
      have hcancelled : inside .cancelled .cancelled := .inl (.other trivial)
      have hvalues := (Computation.Tracks.joinAll_eq hcomputations).cancellable hcancelled
      refine (hvalues.mapFailure hwithin).bind ?_
      rintro values _ rfl
      exact .pure rfl
  | yield reason =>
      dsimp only
      split
      · refine .bind .action ?_
        rintro id _ rfl
        exact .pure rfl
      · exact .fail (.other trivial)

/-! ## Standard operators -/

theorem Evaluation.Linked.eq {drawn : Multiset Nat} {evaluation evaluation' : Evaluation}
    (hlinked : evaluation.Linked Reading.equal drawn evaluation') : evaluation = evaluation' := by
  cases hlinked with
  | done _ value => rfl
  | suspended hsame => rw [hsame]

theorem Evaluation.linked_equal (evaluation : Evaluation) (drawn : Multiset Nat) :
    evaluation.Linked Reading.equal drawn evaluation := by
  cases evaluation with
  | done value => exact .done drawn value
  | suspended suspension => exact .suspended rfl

namespace Congruence

variable {F : Failure → Failure → Prop} {hcancelled : F .cancelled .cancelled}

theorem tracking_linked {c d : Computation Evaluation} (htracks : c.Tracks F Eq d) :
    (tracking F hcancelled).Rel (Evaluation.Linked Reading.equal) c d :=
  htracks.mono (fun _ _ => id) fun evaluation _ hsame => ⟨0, hsame ▸ evaluation.linked_equal 0⟩

theorem tracks_of_linked {c d : Computation Evaluation}
    (hrel : (tracking F hcancelled).Rel (Evaluation.Linked Reading.equal) c d) : c.Tracks F Eq d :=
  Computation.Tracks.mono hrel (fun _ _ => id) fun _ _ ⟨_, hlinked⟩ => hlinked.eq

theorem tracks_of_outputs {drawn : Multiset Nat} {output output' : Output}
    (houtputs : (tracking F hcancelled).Outputs Reading.equal drawn output output') :
    output.Tracks F output' := by
  cases houtputs with
  | value _ value => exact .value value
  | pending _ hcomputations =>
      refine .pending (hcomputations.imp fun c d hrel => ?_)
      exact Computation.Tracks.mono hrel (fun _ _ => id) fun _ _ ⟨_, hsame⟩ => hsame
  | yield _ reason => exact .yield reason
  | evaluation hlinked => exact hlinked.eq ▸ .evaluation _

theorem joins_equal : Evaluation.Joins Reading.equal Reading.equal := by
  intro drawn results results' hlinked _
  have hsame := Reading.eq_of_each_equal (hlinked.mono fun _ _ _ h => h.eq)
  rw [hsame]
  rfl

theorem assembles_equal (name : String) (input : Input) :
    (tracking F hcancelled).Assembles (fun _ => Reading.equal) Reading.equal Reading.equal name
      input := by
  refine ⟨⟨fun _ _ _ _ => id, fun _ _ _ _ => id, ?_, ?_, joins_equal, ?_⟩, ?_, ?_⟩
  · rintro node rest drawn s _ _ rfl
    rfl
  · rintro node items drawn s _ _ _ rfl
    rfl
  · rintro drawn s _ rfl
    refine collapsed_rel (fun _ _ _ _ => id) ?_ ?_
    · cases s.firstPoint? with
      | none => exact .none
      | some point => exact .some rfl
    · rintro more id _ rfl
      rfl
  · exact fun _ _ _ _ _ => id
  · rintro reached node unreached drawn s _ _ rfl
    rfl

end Congruence

/-- A standard operator raises no failures of the kind that could be marked. -/
theorem Standard.Body.marked {name : String} {operator : Operator}
    (hbody : Body name operator.body operator.traverse) (raises : Failure → Failure → Prop) :
    operator.Marked raises operator := by
  refine ⟨rfl, fun F hother _ input scope handle handle' hhandle => ?_⟩
  let K := Congruence.tracking F (hother .cancelled trivial)
  have hrun : K.Rel (K.Outputs Reading.equal) (operator.body.run input scope handle)
      (operator.body.run input scope handle') := by
    refine Congruence.run_rel hbody (Congruence.assembles_equal name input)
      (fun failure hrefuses => hother failure hrefuses.otherKind) (fun _ node _ => ?_)
      fun _ scope => ?_
    · exact Congruence.tracking_linked (hhandle.evaluate node scope)
    · exact Congruence.tracking_linked (hhandle.evaluate _ scope)
  exact Computation.Tracks.mono hrun (fun _ _ => id) fun _ _ ⟨_, houtputs⟩ =>
    Congruence.tracks_of_outputs houtputs

end DecisionLogic
