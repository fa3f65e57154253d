import DecisionLogic.Proofs.Program.Folding
import DecisionLogic.Proofs.Resumption.Adequacy
import DecisionLogic.Proofs.Resumption.Answered

/-!
# Engines that never suspend

An engine becomes one that never suspends when its traversing operators return an answer where they
would yield.  If the engine interprets some meanings, the new one interprets them with the answers.
-/

namespace DecisionLogic

variable {f : Json → Json} {patient : Prop}

/-! ## Answering operators -/

def Output.answered (f : Json → Json) (input : Input) : Output → Output
  | .yield _ => .value (f input.toJson)
  | output => output

/-- The body that returns the answer to its input where the given one yields. -/
def OperatorBody.answered (f : Json → Json) : OperatorBody → OperatorBody
  | .immediate body =>
      .immediate fun input scope handle => do return (← body input scope handle).answered f input
  | .awaiting body =>
      .awaiting fun input scope handle => do return (← body input scope handle).answered f input
  | .both body waitingBody =>
      .both (fun input scope handle => do return (← body input scope handle).answered f input)
        fun input scope handle => do return (← waitingBody input scope handle).answered f input

def Operator.answered (f : Json → Json) (operator : Operator) : Operator :=
  if operator.traverse then { operator with body := operator.body.answered f } else operator

def Registry.answered (f : Json → Json) (registry : Registry) : Registry :=
  ⟨registry.entries.map fun entry => (entry.1, entry.2.answered f)⟩

/-- The engine in which every call of a traversing operator that yields returns the answer to its
input instead. -/
def Engine.answered (f : Json → Json) (engine : Engine) : Engine :=
  { engine with registry := engine.registry.answered f }

theorem Registry.lookup_answered (registry : Registry) (name : String) :
    (registry.answered f).lookup name = (registry.lookup name).map (Operator.answered f) := by
  unfold lookup answered
  induction registry.entries with
  | nil => rfl
  | cons entry rest ih =>
      simp only [List.map_cons, find?]
      by_cases hname : entry.1 = name
      · simp [hname]
      · simpa [hname] using ih

theorem Moment.guarded_andThen_pure {α β : Type} (moment : Moment α) (g : α → β) :
    (moment.andThen fun x => Computation.pure (g x)).guarded =
      moment.guarded.andThen fun x => Computation.pure (g x) := by
  induction moment with
  | finished world result =>
      cases result with
      | ok x => rfl
      | error failure => rfl
  | waiting world ready rest ih =>
      simp only [andThen, guarded]
      congr 1
      funext later
      by_cases hcancelled : later.cancelled = true
      · simp [hcancelled, andThen]
      · simp [hcancelled, ih later]

theorem Computation.cancellable_map {α β : Type} (c : Computation α) (g : α → β) :
    (c >>= fun x => pure (g x)).cancellable = c.cancellable >>= fun x => pure (g x) := by
  funext world
  rw [bind_apply]
  unfold cancellable
  split
  · rfl
  · exact Moment.guarded_andThen_pure (c world) g

theorem Computation.ofAction_map {α β : Type} (action : Action α) (g : α → β) :
    ofAction (do return g (← action)) = ofAction action >>= fun x => pure (g x) := by
  funext world
  rw [bind_apply]
  unfold ofAction
  have hrun : (do return g (← action) : Action β).run.run world =
      ((action.run.run world).1.map g, (action.run.run world).2) := by
    simp only [ExceptT.run_bind, StateT.run_bind]
    rcases action.run.run world with ⟨result, later⟩
    cases result <;> rfl
  rw [hrun]
  rcases action.run.run world with ⟨result, later⟩
  cases result <;> rfl

theorem OperatorBody.run_answered (body : OperatorBody) (input : Input) (scope : Scope)
    (handle : Handle) :
    (body.answered f).run input scope handle =
      body.run input scope handle >>= fun output => pure (output.answered f input) := by
  cases body with
  | immediate body => exact Computation.ofAction_map _ _
  | awaiting body => exact Computation.cancellable_map _ _
  | both body waitingBody => exact Computation.cancellable_map _ _

theorem Reply.GivenBy.answered {reply : Reply} {output : Output} {input : Json}
    (hgiven : reply.GivenBy patient 0 (.ok output)) :
    (reply.answered f input).GivenBy patient 0 (.ok (output.answered f (.evaluated input))) := by
  cases hgiven with
  | value x => exact .value x
  | evaluation x => exact .evaluation x
  | yield reason => exact .value (f input)
  | pending hvalues => exact .pending hvalues
  | pendingFails hfails => exact .pendingFails hfails

theorem Operator.Replies.answered {operator : Operator} {reply : Json → Scope → Reply}
    (hreplies : operator.Replies patient reply) (htraverse : operator.traverse = true) :
    (operator.answered f).Replies patient
      fun input scope => (reply input scope).answered f input := by
  intro input scope handle w hactive
  have hbody : (operator.answered f).body = operator.body.answered f := by
    simp [Operator.answered, htraverse]
  rw [hbody, OperatorBody.run_answered]
  refine (hreplies input scope handle w hactive).andThen ?_ ?_
  · intro effect output hgiven w' hactive'
    obtain rfl := hgiven.effect_eq_zero
    refine .finished (.refl hactive') ?_
    exact hgiven.answered
  · intro effect failure hgiven
    dsimp only
    generalize reply input scope = given at hgiven ⊢
    cases hgiven
    exact .error effect failure

theorem Operator.Means.answered {name : String} {operator : Operator} {meaning : Meaning}
    (hmeans : operator.Means patient name meaning) :
    (operator.answered f).Means patient name (meaning.answered f) := by
  cases hmeans with
  | traversing htraverse hreplies =>
      have htraverse' : (operator.answered f).traverse = true := by
        simp [Operator.answered, htraverse]
      exact .traversing htraverse' (hreplies.answered htraverse)
  | data htraverse hbody =>
      have hsame : operator.answered f = operator := by simp [Operator.answered, htraverse]
      rw [hsame]
      exact .data htraverse hbody
  | lazy htraverse hbody hlazy =>
      have hsame : operator.answered f = operator := by simp [Operator.answered, htraverse]
      have hmeaning : meaning.answered f = meaning := by cases hlazy <;> rfl
      rw [hsame, hmeaning]
      exact .lazy htraverse hbody hlazy

theorem Engine.Interprets.answered {engine : Engine} {meanings : String → Option Meaning}
    (hinterprets : engine.Interprets patient meanings) :
    (engine.answered f).Interprets patient (answeredMeanings f meanings) := by
  have hlookup : ∀ name, (engine.answered f).registry.lookup name =
      (engine.registry.lookup name).map (Operator.answered f) :=
    engine.registry.lookup_answered
  refine ⟨?_, ?_, .inr ?_⟩
  · intro name hname
    rw [hlookup, Option.map_eq_none_iff] at hname
    exact answeredMeanings_of_none (hinterprets.unknown name hname)
  · intro name operator hname
    rw [hlookup, Option.map_eq_some_iff] at hname
    obtain ⟨original, horiginal, rfl⟩ := hname
    obtain ⟨meaning, hmeaning, hmeans⟩ := hinterprets.known name original horiginal
    exact ⟨_, answeredMeanings_of_some hmeaning, hmeans.answered⟩
  · intro name meaning hmeaning
    obtain ⟨original, -, rfl⟩ := Option.map_eq_some_iff.mp hmeaning
    exact original.not_asks_answered

end DecisionLogic
