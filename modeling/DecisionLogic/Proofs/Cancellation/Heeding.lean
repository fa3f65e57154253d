import DecisionLogic.Program.Basic
import DecisionLogic.Proofs.Alike.Job

/-!
# Computations that heed the token

A computation heeds the token when, wherever it waits, the first poll that finds the token fired
ends it with `Failure.cancelled` and does nothing else.  Every look at the token that a computation
makes by itself, `Computation.cancellable`, makes it heed, whatever it does inside; sequences,
continuations and joins of computations that heed do so too.  So everything that an engine evaluates
heeds, whatever its operators are.
-/

namespace DecisionLogic

variable {α β : Type}

inductive Moment.Heeding : Moment α → Prop
  | finished (world : World) (result : Except Failure α) : Heeding (.finished world result)
  | waiting {world : World} {ready : World → Bool} {rest : World → Moment α}
      (hready : ∀ later : World, later.cancelled = true → ready later = true)
      (hends : ∀ later : World, later.cancelled = true →
        rest later = .finished later (.error .cancelled))
      (hrest : ∀ later, Heeding (rest later)) : Heeding (.waiting world ready rest)

def Computation.Heeding (computation : Computation α) : Prop :=
  ∀ world, (computation world).Heeding

namespace Moment.Heeding

variable {m : Moment α}

theorem poll (hheeding : m.Heeding) (later : World) : (m.poll later).Heeding := by
  cases hheeding with
  | finished world result => exact .finished later result
  | @waiting world ready rest hready hends hrest =>
      change (if ready later then rest later else .waiting later ready rest).Heeding
      split
      · exact hrest later
      · exact .waiting hready hends hrest

theorem andThen {next : α → Computation β} (hheeding : m.Heeding)
    (hnext : ∀ x, (next x).Heeding) : (m.andThen next).Heeding := by
  induction hheeding with
  | finished world result =>
      cases result with
      | ok x => exact hnext x world
      | error failure => exact .finished world _
  | waiting hready hends hrest ih =>
      refine .waiting hready ?_ ih
      intro later hcancelled
      rw [hends later hcancelled]
      rfl

theorem mapResult {f : Except Failure α → Except Failure β} (hheeding : m.Heeding)
    (hf : f (.error .cancelled) = .error .cancelled) : (m.mapResult f).Heeding := by
  induction hheeding with
  | finished world result => exact .finished world _
  | waiting hready hends hrest ih =>
      refine .waiting hready ?_ ih
      intro later hcancelled
      rw [hends later hcancelled, Moment.mapResult, hf]

theorem guarded (m : Moment α) : m.guarded.Heeding := by
  induction m with
  | finished world result => exact .finished world result
  | waiting world ready rest ih =>
      refine .waiting ?_ ?_ ?_
      · intro later hcancelled
        rw [hcancelled, Bool.true_or]
      · intro later hcancelled
        rw [if_pos hcancelled]
      · intro later
        split
        · exact .finished later _
        · exact ih later

/-- The rest of a list heeds beside its first computation, which does. -/
theorem besideWaiting {m : Moment (List α)} {ready : World → Bool}
    {resume : World → Computation (List α) → Moment (List α)} (hheeding : m.Heeding)
    (hready : ∀ later : World, later.cancelled = true → ready later = true)
    (hends : ∀ (later : World) (c : Computation (List α)), later.cancelled = true →
      resume later c = .finished later (.error .cancelled))
    (hresume : ∀ (later : World) (c : Computation (List α)), c.Heeding →
      (resume later c).Heeding) :
    (m.besideWaiting ready resume).Heeding := by
  induction hheeding with
  | finished world result =>
      cases result with
      | error failure => exact .finished world _
      | ok xs =>
          refine .waiting hready (fun later => hends later _) fun later => ?_
          exact hresume later _ fun next => .finished next _
  | @waiting world ready' rest hready' hends' hrest ih =>
      refine .waiting ?_ ?_ ?_
      · intro later hcancelled
        rw [hready later hcancelled, Bool.true_or]
      · intro later hcancelled
        rw [if_pos (hready later hcancelled)]
        exact hends later _ hcancelled
      · intro later
        split
        · apply hresume
          have hwaiting : (Moment.waiting world ready' rest).Heeding :=
            .waiting hready' hends' hrest
          exact hwaiting.poll
        · exact ih later

theorem beside {others : Computation (List α)} (hheeding : m.Heeding) (hothers : others.Heeding) :
    (m.beside others).Heeding := by
  induction hheeding generalizing others with
  | finished world result =>
      cases result with
      | error failure => exact .finished world _
      | ok x => exact (hothers world).mapResult rfl
  | waiting hready hends hrest ih =>
      refine besideWaiting (hothers _) hready ?_ fun later c hc => ih later hc
      intro later c hcancelled
      rw [hends later hcancelled]
      rfl

end Moment.Heeding

namespace Computation.Heeding

theorem pure (x : α) : Heeding (pure x : Computation α) :=
  fun _ => .finished _ _

theorem fail (failure : Failure) : Heeding (fail failure : Computation α) :=
  fun _ => .finished _ _

theorem ofAction (action : Action α) : (ofAction action).Heeding :=
  fun _ => .finished _ _

theorem ofExcept (result : Except Failure α) : (ofExcept result).Heeding := by
  cases result with
  | ok x => exact pure x
  | error failure => exact fail failure

theorem checkCancelled : checkCancelled.Heeding :=
  fun _ => .finished _ _

theorem bind {c : Computation α} {next : α → Computation β} (hheeding : c.Heeding)
    (hnext : ∀ x, (next x).Heeding) : (c >>= next).Heeding :=
  fun world => (hheeding world).andThen hnext

theorem mapFailure {c : Computation α} {f : Failure → Failure} (hheeding : c.Heeding)
    (hf : f .cancelled = .cancelled) : (c.mapFailure f).Heeding :=
  fun world => (hheeding world).mapResult (congrArg Except.error hf)

theorem cancellable (c : Computation α) : c.cancellable.Heeding := by
  intro world
  unfold Computation.cancellable
  split
  · exact .finished world _
  · exact .guarded _

theorem joinAll {cs : List (Computation α)} (hheeding : ∀ c ∈ cs, c.Heeding) :
    (joinAll cs).Heeding := by
  induction cs with
  | nil => exact pure []
  | cons c cs ih =>
      intro world
      have hothers := ih fun other hother => hheeding other (List.mem_cons_of_mem c hother)
      exact (hheeding c List.mem_cons_self world).beside hothers

end Computation.Heeding

/-! ## Evaluation -/

/-- Neither the operator nor what it reaches back into need heed. -/
theorem callOperator_heeding {name : String} {operator : Operator} {input : Input} {scope : Scope}
    {handle : Handle} : (callOperator name operator input scope handle).Heeding := by
  unfold callOperator
  refine .bind (.ofAction _) fun _ => .bind (.mapFailure ?_ rfl) fun output => ?_
  · cases operator.body with
    | immediate body => exact .ofAction _
    | awaiting body => exact .cancellable _
    | both body waitingBody => exact .cancellable _
  · cases output with
    | value value => exact .pure _
    | evaluation evaluation => exact .pure _
    | pending computations => exact .bind (.mapFailure (.cancellable _) rfl) fun _ => .pure _
    | yield reason =>
        dsimp only
        split
        · exact .bind (.ofAction _) fun _ => .pure _
        · exact .fail _

namespace Engine

theorem evaluate_heeding (engine : Engine) (levels : Nat) (node : Logic) (scope : Scope) :
    (engine.evaluate levels node scope).Heeding := by
  induction levels generalizing node scope with
  | zero => exact .bind .checkCancelled fun _ => .fail _
  | succ levels ih =>
      unfold evaluate
      refine .bind .checkCancelled fun _ => ?_
      cases node with
      | literal value => exact .pure _
      | sequence items =>
          refine .bind (.joinAll ?_) fun _ => .pure _
          intro c hc
          obtain ⟨item, _, rfl⟩ := List.mem_map.mp hc
          exact ih item scope
      | operation name args =>
          dsimp only
          cases engine.registry.lookup name with
          | none => exact .fail _
          | some operator =>
              dsimp only
              split
              · refine .bind (ih args scope) fun evaluation => ?_
                cases evaluation with
                | done value => exact callOperator_heeding
                | suspended suspension => exact .pure _
              · exact callOperator_heeding

theorem run_heeding (engine : Engine) (logic data : Json) (above : List Json) :
    (engine.run logic data above).Heeding :=
  .bind (.ofExcept _) fun node => evaluate_heeding engine _ node _

theorem resume_heeding (engine : Engine) (suspension : Suspension) (replacements : Replacements)
    (data : Json) (above : List Json) :
    (engine.resume suspension replacements data above).Heeding :=
  .bind (.ofExcept _) fun node => evaluate_heeding engine _ node _

end Engine

namespace Compiled

variable (engine : Engine) (scope : Scope)

mutual

theorem execute_heeding : ∀ compiled : Compiled, (execute engine scope compiled).Heeding
  | .literal value => .bind .checkCancelled fun _ => .pure _
  | .sequence items =>
      .bind .checkCancelled fun _ => .bind (.joinAll (executeItems_heeding items)) fun _ => .pure _
  | .call name operator args raw => by
      unfold execute
      refine .bind .checkCancelled fun _ => .bind (execute_heeding args) fun evaluation => ?_
      cases evaluation with
      | done value => exact callOperator_heeding
      | suspended suspension => exact .pure _
  | .rawCall name operator raw => .bind .checkCancelled fun _ => callOperator_heeding

theorem executeItems_heeding :
    ∀ items : List Compiled, ∀ c ∈ executeItems engine scope items, c.Heeding
  | [], _, hc => absurd hc List.not_mem_nil
  | item :: items, c, hc => by
      rcases List.mem_cons.mp hc with rfl | hrest
      · exact execute_heeding item
      · exact executeItems_heeding items c hrest

end

end Compiled

theorem Program.call_heeding (program : Program) (data : Json) : (program.call data).Heeding :=
  program.root.execute_heeding program.engine _

/-! ## Jobs -/

/-- What is left of a job heeds the token. -/
inductive Progress.Heeding : Progress α → Prop
  | unstarted {computation : Computation α} (hheeding : computation.Heeding) :
      Heeding (.unstarted computation)
  | running {world : World} {ready : World → Bool} {rest : World → Moment α}
      (hheeding : (Moment.waiting world ready rest).Heeding) :
      Heeding (.running (.waiting world ready rest))
  | over : Heeding .over

def Progress.isRunning : Progress α → Bool
  | .running _ => true
  | _ => false

namespace Job

/-- A job of the computation, after any polls in any worlds, firings of its token, and drops.  The
state of an instance that it works on may be another one at each poll. -/
inductive Reached (computation : Computation α) : Job α → Prop
  | new (cancelled : Bool) : Reached computation (Job.new computation cancelled)
  | share {job : Job α} (hreached : Reached computation job) (bag : Fields Json) :
      Reached computation { job with bag }
  | poll {job : Job α} (hreached : Reached computation job) (world : World) :
      Reached computation (job.poll world).2.1
  | cancel {job : Job α} (hreached : Reached computation job) : Reached computation job.cancel
  | drop {job : Job α} (hreached : Reached computation job) : Reached computation job.drop

variable {job : Job α} {world : World}

theorem settle_heeding {m : Moment α} (hheeding : m.Heeding) :
    (settle m).2.1.progress.Heeding := by
  cases hheeding with
  | finished world result => exact .over
  | waiting hready hends hrest => exact .running (.waiting hready hends hrest)

theorem poll_heeding (hheeding : job.progress.Heeding) (world : World) :
    (job.poll world).2.1.progress.Heeding := by
  unfold poll
  cases hprogress : job.progress with
  | unstarted computation =>
      rw [hprogress] at hheeding
      cases hheeding with
      | unstarted hcomputation => exact settle_heeding (hcomputation _)
  | running moment =>
      rw [hprogress] at hheeding
      cases hheeding with
      | running hmoment => exact settle_heeding (hmoment.poll _)
  | _ =>
      rw [hprogress] at hheeding
      simpa only [hprogress] using hheeding

theorem Reached.heeding {computation : Computation α} (hreached : Reached computation job)
    (hheeding : computation.Heeding) : job.progress.Heeding := by
  induction hreached with
  | new cancelled => exact .unstarted hheeding
  | share _ _ ih => exact ih
  | poll _ world ih => exact poll_heeding ih world
  | cancel _ ih => exact ih
  | drop _ _ => exact .over

/-- A poll that finds the job not over leaves it over when it is finished, and running otherwise. -/
theorem poll_progress (hactive : job.isOver = false) (world : World) :
    (∃ result, (job.poll world).1 = .finished result ∧ (job.poll world).2.1.progress = .over) ∨
      ((job.poll world).1 = .pending ∧ (job.poll world).2.1.progress.isRunning = true) := by
  have hsettle : ∀ m : Moment α,
      (∃ result, (settle m).1 = .finished result ∧ (settle m).2.1.progress = .over) ∨
        ((settle m).1 = .pending ∧ (settle m).2.1.progress.isRunning = true) := by
    intro m
    cases m with
    | finished world result => exact .inl ⟨result, rfl, rfl⟩
    | waiting world ready rest => exact .inr ⟨rfl, rfl⟩
  unfold poll
  cases hprogress : job.progress with
  | unstarted computation => exact hsettle _
  | running moment => exact hsettle _
  | _ => simp [isOver, hprogress] at hactive

theorem isRunning_of_pending (hpending : (job.poll world).1 = .pending) :
    (job.poll world).2.1.progress.isRunning = true := by
  have hactive : job.isOver = false := by
    cases hprogress : job.progress with
    | unstarted _ | running _ => simp [isOver, hprogress]
    | _ => simp [poll, hprogress] at hpending
  rcases poll_progress hactive world with ⟨result, hfinished, -⟩ | ⟨-, hrunning⟩
  · cases hfinished.symm.trans hpending
  · exact hrunning

theorem isOver_of_isRunning (hrunning : job.progress.isRunning = true) : job.isOver = false := by
  cases hprogress : job.progress with
  | running moment => simp [isOver, hprogress]
  | _ =>
      rw [hprogress] at hrunning
      cases hrunning

/-- A job that was polled and has to wait ends at the next poll once its token has fired, and that
poll does nothing else. -/
theorem poll_of_cancelled (hheeding : job.progress.Heeding)
    (hrunning : job.progress.isRunning = true) (hcancelled : job.cancelled = true)
    (world : World) :
    (job.poll world).1 = .finished (.error .cancelled) ∧
      (job.poll world).2.2 = { world with bag := job.bag, cancelled := true } := by
  unfold poll
  cases hprogress : job.progress with
  | running moment =>
      rw [hprogress] at hheeding
      cases hheeding with
      | running hmoment =>
          cases hmoment with
          | waiting hready hends hrest =>
              have hready' := hready { world with bag := job.bag, cancelled := true } rfl
              simp only [Moment.poll, hcancelled, hready', if_true, hends, settle, and_self]
  | _ =>
      rw [hprogress] at hrunning
      cases hrunning

end Job
end DecisionLogic
