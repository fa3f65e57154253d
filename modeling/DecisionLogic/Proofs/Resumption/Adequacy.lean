import DecisionLogic.Proofs.Resumption.Bodies
import DecisionLogic.Proofs.Resumption.Fit

/-!
# Evaluation is as judged

The operators of an engine mean what a table of meanings says.  Then evaluating a tree that fits
concludes as the tree is judged.
-/

namespace DecisionLogic

variable {f : Json → Json} {patient : Prop}

/-! ## Replies -/

/-- What a body that ran to its end has to have left of a reply. -/
inductive Reply.GivenBy (patient : Prop) : Reply → Condition Output
  | value (x : Json) : GivenBy patient (.value x) 0 (.ok (.value x))
  | evaluation (x : Json) : GivenBy patient (.value x) 0 (.ok (.evaluation (.done x)))
  | yield (reason : Json) : GivenBy patient .asks 0 (.ok (.yield reason))
  | pending {computations : List (Computation Json)} {values : List Json}
      (hvalues : (Computation.joinAll computations).Judged patient Reading.same
        (.gives values 0)) :
      GivenBy patient (.value (.array values)) 0 (.ok (.pending computations))
  | pendingFails {computations : List (Computation Json)}
      (hfails : (Computation.joinAll computations).Judged patient
        (Reading.same : Reading (List Json) (List Json)) .fails) :
      GivenBy patient .fails 0 (.ok (.pending computations))
  | error (effect : Effect) (failure : Failure) : GivenBy patient .fails effect (.error failure)

/-- What comes of a call of the operator depends on its input and on the scope alone: not on the
state of the invocation, the options or the engine. -/
def Operator.Replies (patient : Prop) (operator : Operator) (reply : Json → Scope → Reply) : Prop :=
  ∀ (input : Json) (scope : Scope) (handle : Handle),
    (operator.body.run (.evaluated input) scope handle).Concludes patient
      ((reply input scope).GivenBy patient)

theorem Reply.GivenBy.mapError {reply : Reply} {effect : Effect} {result : Except Failure Output}
    (hgiven : reply.GivenBy patient effect result) (rename : Failure → Failure) :
    reply.GivenBy patient effect (result.mapError rename) := by
  cases hgiven with
  | value x => exact .value x
  | evaluation x => exact .evaluation x
  | yield reason => exact .yield reason
  | pending hvalues => exact .pending hvalues
  | pendingFails hfails => exact .pendingFails hfails
  | error effect failure => exact .error effect (rename failure)

theorem output_judged {reply : Reply} (name : String) (input : Json) {options : Options}
    (htracked : options.yieldSupported = true ∨ reply ≠ .asks) (output : Output) :
    reply.GivenBy patient 0 (.ok output) → Computation.Judged patient (Evaluation.Stands f)
      (match output with
      | .value value => pure (.done value)
      | .evaluation evaluation => pure evaluation
      | .pending computations => do
          let values ← Computation.mapFailure (Failure.within name) <|
            Computation.cancellable (Computation.joinAll computations)
          return .done (.array values)
      | .yield reason =>
          if options.yieldSupported then do
            let id ← Computation.ofAction Action.freshPoint
            return .suspended (.ofPoint ⟨id, name, input, reason⟩)
          else Computation.fail (.suspensionDisabled name))
      (reply.standing f input) := by
  intro hgiven
  cases hgiven with
  | value x => exact .pure (.done x)
  | evaluation x => exact .pure (.done x)
  | yield reason =>
      have hsupported : options.yieldSupported = true := htracked.resolve_right (by simp)
      simp only [hsupported, if_true]
      have hsplit : Reply.asks.standing f input =
          (pure () >>= fun _ => pure (.waits 1 (.literal (f input))) : Judgement Standing) := by
        simp [Reply.standing]
      rw [hsplit]
      refine Computation.Judged.freshPoint.bind fun drawn id _ hdrawn => .pure_after ?_
      have hstands := @Evaluation.Stands.waits f (.ofPoint ⟨id, name, input, reason⟩) drawn
      rw [Suspension.points_ofPoint] at hstands
      simpa [Suspension.ofPoint, PartialTree.answer] using hstands hdrawn.symm
  | @pending computations values hvalues =>
      have hsplit : (Reply.value (.array values)).standing f input =
          (.gives values 0 >>= fun values => pure (.done (.array values)) :
            Judgement Standing) := by
        rw [Judgement.gives_bind, Judgement.after_zero]
        rfl
      rw [hsplit]
      refine (hvalues.cancellable.mapFailure _).bind_same fun values => ?_
      exact .pure (.done _)
  | pendingFails hfails =>
      have hsplit : Reply.fails.standing f input =
          (.fails >>= fun values => pure (.done (.array values)) : Judgement Standing) := rfl
      rw [hsplit]
      refine (hfails.cancellable.mapFailure _).bind_same fun values => ?_
      exact .pure (.done _)

theorem Reply.GivenBy.effect_eq_zero {reply : Reply} {effect : Effect} {output : Output}
    (hgiven : reply.GivenBy patient effect (.ok output)) : effect = 0 := by
  cases hgiven <;> rfl

theorem callOperator_judged {operator : Operator} {reply : Json → Scope → Reply}
    (hreplies : operator.Replies patient reply) (name : String) (input : Json) (scope : Scope)
    {handle : Handle}
    (htracked : handle.options.yieldSupported = true ∨ reply input scope ≠ .asks) :
    (callOperator name operator (.evaluated input) scope handle).Judged patient
      (Evaluation.Stands f) ((reply input scope).judge f name input) := by
  have hrecord := @Computation.Judged.record patient ⟨name, operator.origin, .evaluated input⟩
  have hsplit : (reply input scope).judge f name input =
      (.gives () {(name, input)} >>= fun _ => (reply input scope).standing f input) := rfl
  rw [hsplit]
  unfold callOperator
  refine hrecord.bind_same fun _ w hactive => ?_
  have hbody := (hreplies input scope handle w hactive).mapResult
    fun effect result hgiven => hgiven.mapError (Failure.within name)
  refine hbody.andThen ?_ ?_
  · intro effect output hgiven
    obtain rfl := hgiven.effect_eq_zero
    simp only [zero_add]
    exact output_judged name input htracked output hgiven
  · intro effect failure hgiven
    generalize reply input scope = given at hgiven ⊢
    cases hgiven
    exact .fails effect failure

theorem callOperator_raw_judged {operator : Operator} {name : String} {args : Logic}
    {scope : Scope} {handle : Handle} {judgement : Judgement Standing}
    (hbody : (operator.body.run (.raw args) scope handle).Judged patient (Output.Stands f)
      judgement) :
    (callOperator name operator (.raw args) scope handle).Judged patient (Evaluation.Stands f)
      judgement := by
  have hrecord := @Computation.Judged.record patient ⟨name, operator.origin, .raw args⟩
  have hsplit : judgement =
      (.gives () 0 >>= fun _ => judgement >>= pure : Judgement Standing) := by simp
  rw [hsplit]
  unfold callOperator
  refine hrecord.bind_same fun _ => (hbody.mapFailure _).bind fun drawn output standing hstands => ?_
  cases hstands with
  | value x => exact .pure_after (.done x)
  | evaluation hstands => exact .pure_after hstands

/-! ## Engines -/

inductive Operator.Means (patient : Prop) : String → Operator → Meaning → Prop
  | traversing {name : String} {operator : Operator} {reply : Json → Scope → Reply}
      (htraverse : operator.traverse = true) (hreplies : operator.Replies patient reply) :
      Means patient name operator (.traversing reply)
  | data {name : String} {operator : Operator} (htraverse : operator.traverse = false)
      (hbody : operator.body = .immediate Standard.preserve) : Means patient name operator .data
  | lazy {name : String} {operator : Operator} {body : AwaitingBody} {meaning : Meaning}
      (htraverse : operator.traverse = false) (hbody : operator.body = .awaiting body)
      (hmeans : Standard.LazyMeans name body meaning) : Means patient name operator meaning

/-- The operators of the engine mean what the table says, and they ask only if suspensions are
tracked. -/
structure Engine.Interprets (patient : Prop) (engine : Engine)
    (meanings : String → Option Meaning) : Prop where
  unknown : ∀ name, engine.registry.lookup name = none → meanings name = none
  known : ∀ name operator, engine.registry.lookup name = some operator →
    ∃ meaning, meanings name = some meaning ∧ operator.Means patient name meaning
  tracked : engine.options.yieldSupported = true ∨
    ∀ name meaning, meanings name = some meaning → ¬ meaning.Asks

namespace Engine

variable {engine : Engine} {meanings : String → Option Meaning}

theorem Interprets.lookup_eq_none (hinterprets : engine.Interprets patient meanings) {name : String}
    (hname : meanings name = none) : engine.registry.lookup name = none := by
  cases hlookup : engine.registry.lookup name with
  | none => rfl
  | some operator =>
      obtain ⟨meaning, hmeaning, -⟩ := hinterprets.known name operator hlookup
      rw [hname] at hmeaning
      cases hmeaning

theorem Interprets.lookup_eq_some (hinterprets : engine.Interprets patient meanings)
    {name : String} {meaning : Meaning} (hname : meanings name = some meaning) :
    ∃ operator, engine.registry.lookup name = some operator ∧
      operator.Means patient name meaning := by
  cases hlookup : engine.registry.lookup name with
  | none =>
      rw [hinterprets.unknown name hlookup] at hname
      cases hname
  | some operator =>
      obtain ⟨other, hother, hmeans⟩ := hinterprets.known name operator hlookup
      rw [hname] at hother
      cases hother
      exact ⟨operator, rfl, hmeans⟩

theorem checked {α β : Type} {R : Reading α β} {c : Computation α} {j : Judgement β}
    (hjudged : c.Judged patient R j) :
    (Computation.checkCancelled >>= fun _ => c).Judged patient R j := by
  have hsplit : j = (pure () >>= fun _ => j) := (pure_bind () fun _ => j).symm
  rw [hsplit]
  exact Computation.Judged.checkCancelled.bind_same fun _ => hjudged

theorem lazyCall_judged {name : String} {operator : Operator} {body : AwaitingBody}
    {meaning : Meaning} (hbody : operator.body = .awaiting body)
    (hmeans : Standard.LazyMeans name body meaning) {args : Logic} {scope : Scope} {handle : Handle}
    {evaluate : Logic → Scope → Judgement Standing}
    (harguments : ∀ node ∈ args.arguments, ∀ scope,
      (handle.evaluate node scope).Judged patient (Evaluation.Stands f) (evaluate node scope))
    (hsettles : meaning.iterates = true → ∀ scope,
      (handle.evaluate (Meaning.bodyOf args.arguments) scope).Judged patient Evaluation.Settles
        (Meaning.bodyValue evaluate args scope)) :
    (callOperator name operator (.raw args) scope handle).Judged patient (Evaluation.Stands f)
      (meaning.operation f evaluate name args scope) := by
  apply callOperator_raw_judged
  rw [hbody]
  exact (Standard.lazyBody_judged hmeans harguments hsettles).cancellable

theorem evaluate_judged (hinterprets : engine.Interprets patient meanings) {levels : Nat}
    {node : Logic} (hfit : node.Fit meanings levels) (scope : Scope) :
    (engine.evaluate levels node scope).Judged patient (Evaluation.Stands f)
      (Meaning.judge f meanings levels node scope) := by
  induction hfit generalizing scope with
  | literal value =>
      unfold evaluate Meaning.judge
      exact checked (.pure (.done value))
  | @sequence levels items _ ih =>
      unfold evaluate Meaning.judge
      apply checked
      have hitems : (Computation.joinAll
          (items.map fun item => engine.evaluate levels item scope)).Judged patient
            (Evaluation.Stands f).Each
            (.all (items.map fun item => Meaning.judge f meanings levels item scope)) := by
        apply Computation.Judged.joinAll
        rw [List.forall₂_map_left_iff, List.forall₂_map_right_iff, List.forall₂_same]
        exact fun item hitem => ih item hitem scope
      refine hitems.bind fun drawn results standings hstands => ?_
      exact .pure_after (Evaluation.stands_join hstands)
  | @unknown levels name args hname =>
      unfold evaluate Meaning.judge
      simp only [hname, hinterprets.lookup_eq_none hname]
      exact checked (.fail _)
  | @traversing levels name args reply hname _ ih =>
      obtain ⟨operator, hlookup, hmeans⟩ := hinterprets.lookup_eq_some hname
      cases hmeans with
      | lazy _ _ hmeans => cases hmeans
      | traversing htraverse hreplies =>
          unfold evaluate Meaning.judge
          simp only [hname, hlookup, htraverse, if_true]
          refine checked ((ih scope).bind_stands ?_ ?_)
          · intro value
            apply callOperator_judged hreplies
            refine hinterprets.tracked.imp id fun hquiet hasks => ?_
            exact hquiet name _ hname ⟨value, scope, hasks⟩
          · intro drawn suspension standing hstands
            cases hstands with
            | waits hids =>
                refine .pure_after ?_
                have hstands := @Evaluation.Stands.waits f
                  (suspension.withinCall name args.toJson) drawn
                rw [Suspension.points_withinCall] at hstands
                simpa [Suspension.withinCall, PartialTree.answer] using hstands hids
  | @data levels name args hname =>
      obtain ⟨operator, hlookup, hmeans⟩ := hinterprets.lookup_eq_some hname
      cases hmeans with
      | lazy _ _ hmeans => cases hmeans
      | data htraverse hbody =>
          unfold evaluate Meaning.judge
          simp only [hname, hlookup, htraverse]
          apply checked
          apply callOperator_raw_judged
          rw [hbody]
          exact .pure (.value args.toJson)
  | @choice levels name args meaning hname hchooses _ htail ih =>
      obtain ⟨operator, hlookup, hmeans⟩ := hinterprets.lookup_eq_some hname
      cases hmeans with
      | traversing _ _ => cases hchooses
      | data _ _ => cases hchooses
      | lazy htraverse hbody hmeans =>
          unfold evaluate Meaning.judge
          simp only [hname, hlookup, htraverse]
          refine checked (lazyCall_judged hbody hmeans ih fun hiterates => ?_)
          cases meaning <;> simp_all [Meaning.chooses, Meaning.iterates]
  | @iteration levels name args meaning hname hiterates _ _ hquiet hplain htail ih ihbody =>
      obtain ⟨operator, hlookup, hmeans⟩ := hinterprets.lookup_eq_some hname
      cases hmeans with
      | traversing _ _ => cases hiterates
      | data _ _ => cases hiterates
      | lazy htraverse hbody hmeans =>
          unfold evaluate Meaning.judge
          simp only [hname, hlookup, htraverse]
          refine checked (lazyCall_judged hbody hmeans ih fun _ inner => ?_)
          exact (ihbody inner).settles (hquiet.settled levels inner)

theorem exists_interprets {P : String → Meaning → Prop}
    (hmeans : ∀ name operator, engine.registry.lookup name = some operator →
      ∃ meaning, operator.Means patient name meaning ∧ P name meaning)
    (htracked : engine.options.yieldSupported = true ∨
      ∀ name meaning, P name meaning → ¬ meaning.Asks) :
    ∃ meanings, engine.Interprets patient meanings ∧
      ∀ name meaning, meanings name = some meaning → P name meaning := by
  have hentry : ∀ name, ∃ entry : Option Meaning,
      (engine.registry.lookup name = none → entry = none) ∧
      (∀ operator, engine.registry.lookup name = some operator →
        ∃ meaning, entry = some meaning ∧ operator.Means patient name meaning) ∧
      ∀ meaning, entry = some meaning → P name meaning := by
    intro name
    cases hlookup : engine.registry.lookup name with
    | none => exact ⟨none, fun _ => rfl, nofun, nofun⟩
    | some operator =>
        obtain ⟨meaning, hmeaning, hproperty⟩ := hmeans name operator hlookup
        refine ⟨some meaning, nofun, ?_, ?_⟩
        · rintro _ ⟨⟩
          exact ⟨meaning, rfl, hmeaning⟩
        · rintro _ ⟨⟩
          exact hproperty
  choose meanings hunknown hknown hproperty using hentry
  exact ⟨meanings, ⟨hunknown, hknown, htracked.imp id fun hquiet name meaning hmeaning =>
    hquiet name meaning (hproperty name meaning hmeaning)⟩, hproperty⟩

end Engine

/-! ## Standard operators -/

namespace Standard

def replyOf : Except Failure Json → Reply
  | .ok value => .value value
  | .error _ => .fails

theorem replies_of_computed {operator : Operator} {body : ImmediateBody}
    {f : Json → Scope → Except Failure Json} (hbody : operator.body = .immediate body)
    (hcomputed : ∀ input scope handle world, Computation.ofAction
      (body (.evaluated input) scope handle) world =
        .finished world ((f input scope).map .value)) :
    operator.Replies patient fun input scope => replyOf (f input scope) := by
  intro input scope handle w hactive
  rw [hbody]
  unfold OperatorBody.run
  simp only [hcomputed]
  refine .finished (.refl hactive) ?_
  cases f input scope with
  | ok value => exact .value value
  | error failure => exact .error 0 failure

theorem not_asks_replyOf (f : Json → Scope → Except Failure Json) :
    ¬ Meaning.Asks (.traversing fun input scope => replyOf (f input scope)) := by
  rintro ⟨input, scope, hasks⟩
  cases hresult : f input scope <;> simp [hresult, replyOf] at hasks

/-- Every standard operator has a meaning, and it never asks. -/
theorem StandardOperator.exists_means {name : String} {operator : Operator}
    (hstandard : StandardOperator name operator) :
    ∃ meaning, operator.Means patient name meaning ∧ ¬ meaning.Asks ∧
      (meaning.iterates = true → name ∈ iterationNames) := by
  cases hstandard with
  | arguments name f =>
      let computed : Json → Scope → Except Failure Json := fun input _ => f (Input.evaluated input).args
      refine ⟨_, .traversing rfl (replies_of_computed (f := computed) rfl ?_),
        not_asks_replyOf computed, nofun⟩
      intro input scope handle world
      rfl
  | scope name f =>
      let computed : Json → Scope → Except Failure Json :=
        fun input scope => f (Input.evaluated input).args scope
      refine ⟨_, .traversing rfl (replies_of_computed (f := computed) rfl ?_),
        not_asks_replyOf computed, nofun⟩
      intro input scope handle world
      rfl
  | preserve => exact ⟨_, .data rfl rfl, id, nofun⟩
  | lazy hbody =>
      obtain ⟨meaning, hlazy, hquiet, hname⟩ := exists_lazyMeans hbody
      exact ⟨meaning, .lazy rfl rfl hlazy, hquiet, hname⟩

end Standard
end DecisionLogic
