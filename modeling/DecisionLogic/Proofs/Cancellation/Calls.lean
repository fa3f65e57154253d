import DecisionLogic.Proofs.Calls.Isolation
import DecisionLogic.Proofs.Cancellation.Heeding
import DecisionLogic.Proofs.Pool.Order

/-!
# Cancelled calls

The calls of a program, whatever its operators do: `Calls.Kept` ties each call to its claim and the
waiting claims to the order in which their calls asked first.  `Calls.Turn` says what an event may
do to one call, so that the invariant is shown to last once.  A call that was asked and had to wait
for an instance, or on it, ends at the poll that finds its token fired; its instance goes to the
call that waits longest.
-/

namespace DecisionLogic

namespace Pool

variable {α : Type} {pool : Pool α} {ticket : Nat} {cancelled : Bool}

theorem claim_of_waiting (hwaiting : (pool.poll ticket cancelled).1 = .waiting) :
    (pool.poll ticket cancelled).2.claim ticket = .queued := by
  unfold poll at hwaiting ⊢
  cases hclaim : pool.claim ticket with
  | held other => simp [hclaim] at hwaiting
  | gone => simp [hclaim] at hwaiting
  | unpolled =>
      cases cancelled with
      | true => simp [hclaim] at hwaiting
      | false =>
          have hnotGone : pool.claim ticket ≠ .gone := by simp [hclaim]
          rcases (claim_acquire hnotGone).1 with ⟨other, hheld⟩ | hqueued
          · simp [hclaim, answer, hheld] at hwaiting
          · exact hqueued
  | queued =>
      cases cancelled with
      | true => simp [hclaim] at hwaiting
      | false => exact hclaim
  | offered other => cases cancelled <;> simp [hclaim] at hwaiting

end Pool

namespace Calls

variable {calls calls' : Calls} {limit number : Nat} {call new : Call} {log : WaitLog}
  {world : World}

/-- The history of the waiting calls after one more event. -/
def follow (log : WaitLog) (calls calls' : Calls) : WaitLog :=
  match calls.pool, calls'.pool with
  | some pool, some pool' => log.record pool pool'
  | _, _ => log

/-- Calls, and a pool of at most `limit` instances with the given history. -/
structure Kept (calls : Calls) (limit : Nat) (log : WaitLog) : Prop where
  seated : ∀ pool, calls.pool = some pool → calls.Seated limit pool
  queueing : ∀ pool, calls.pool = some pool → pool.Queueing
  inOrder : ∀ pool, calls.pool = some pool → log.InOrder pool
  heeding : ∀ (number : Nat) (call : Call), calls.calls[number]? = some call →
    call.job.progress.Heeding

/-- One call changes, and with it its claim. -/
structure Turn (calls calls' : Calls) (limit number : Nat) (new : Call) : Prop where
  changed : calls'.calls = calls.calls.set number new
  heeding : new.job.progress.Heeding
  pooled : ∀ pool', calls'.pool = some pool' → ∃ pool, calls.pool = some pool ∧
    pool.Moves pool' ∧ pool'.Seating limit calls.calls.length ∧
    new.Holds number (pool'.claim number) ∧
    ∀ other, other ≠ number → (pool'.claim other).SameHold (pool.claim other)
  direct : calls'.pool = none → calls.pool = none

theorem Kept.turn (hkept : calls.Kept limit log) (hturn : calls.Turn calls' limit number new) :
    calls'.Kept limit (follow log calls calls') := by
  constructor
  · intro pool' hpool'
    obtain ⟨pool, hpool, -, hseating, hholds, hothers⟩ := hturn.pooled pool' hpool'
    exact (hkept.seated pool hpool).change hseating hturn.changed hholds hothers
  · intro pool' hpool'
    obtain ⟨pool, hpool, hmoves, -⟩ := hturn.pooled pool' hpool'
    exact hmoves.queueing
  · intro pool' hpool'
    obtain ⟨pool, hpool, hmoves, -⟩ := hturn.pooled pool' hpool'
    have hinOrder := (hkept.inOrder pool hpool).step hmoves
    simpa only [follow, hpool, hpool'] using hinOrder
  · intro other otherCall hother
    rw [hturn.changed] at hother
    by_cases heq : other = number
    · subst heq
      obtain ⟨-, rfl⟩ : other < calls.calls.length ∧ new = otherCall := by
        simpa [List.getElem?_set] using hother
      exact hturn.heeding
    · rw [List.getElem?_set_ne (Ne.symm heq)] at hother
      exact hkept.heeding other otherCall hother

/-- Where nothing happens to the calls, the pool may still move. -/
theorem Kept.stay (hkept : calls.Kept limit log) : calls.Kept limit (follow log calls calls) := by
  refine ⟨hkept.seated, hkept.queueing, ?_, hkept.heeding⟩
  intro pool hpool
  have hmoves : pool.Moves pool := ⟨hkept.queueing pool hpool, .refl pool, .refl pool⟩
  have hinOrder := (hkept.inOrder pool hpool).step hmoves
  simpa only [follow, hpool] using hinOrder

theorem kept_new (program : Program) (top : Bool) (max : Option Nat) :
    (Calls.new program top max).Kept (Nat.max (max.getD program.engine.options.poolMax) 1)
      .empty := by
  have hpooled : ∀ pool, (Calls.new program top max).pool = some pool →
      pool = .new (max.getD program.engine.options.poolMax) [0] (· + 1) := by
    intro pool hpool
    simp only [new] at hpool
    split at hpool
    · exact (Option.some.inj hpool).symm
    · cases hpool
  constructor
  · intro pool hpool
    rw [hpooled pool hpool]
    exact ⟨Pool.Seating.new _, by simp [new]⟩
  · intro pool hpool
    rw [hpooled pool hpool]
    exact Pool.queueing_new ..
  · intro pool hpool
    rw [hpooled pool hpool]
    exact WaitLog.inOrder_empty ..
  · simp [new]

theorem Kept.start (hkept : calls.Kept limit log) (data : Json) (cancelled : Bool) :
    (calls.start data cancelled).2.Kept limit
      (follow log calls (calls.start data cancelled).2) := by
  rw [start_eq]
  constructor
  · intro pool' hpool'
    obtain ⟨pool, hpool, rfl⟩ := Option.map_eq_some_iff.mp hpool'
    have hseated := hkept.seated pool hpool
    apply hseated.enter rfl
    refine ⟨?_, fun hover => ?_, fun _ => ?_, fun _ => rfl, fun _ => rfl⟩
    · rw [hpool, Option.map_some, hseated.seating.length]
    · cases hover
    · simp
  · intro pool' hpool'
    obtain ⟨pool, hpool, rfl⟩ := Option.map_eq_some_iff.mp hpool'
    exact (hkept.queueing pool hpool).enter
  · intro pool' hpool'
    obtain ⟨pool, hpool, rfl⟩ := Option.map_eq_some_iff.mp hpool'
    have hinOrder := (hkept.inOrder pool hpool).step (hkept.queueing pool hpool).moves_enter
    simpa only [follow, hpool, Option.map_some] using hinOrder
  · intro number call hcall
    rcases getElem?_concat hcall with ⟨-, hold⟩ | ⟨-, rfl⟩
    · exact hkept.heeding number call hold
    · exact .unstarted (calls.program.call_heeding data)

/-! ## What an event does to one call -/

theorem Kept.turn_cancel (hkept : calls.Kept limit log)
    (hcall : calls.calls[number]? = some call) :
    calls.Turn (calls.cancel number) limit number { call with job := call.job.cancel } := by
  unfold cancel
  rw [hcall]
  refine ⟨rfl, hkept.heeding number call hcall, ?_, id⟩
  intro pool hpool
  have hseated := hkept.seated pool hpool
  have hholds := hseated.holds number call hcall
  refine ⟨pool, hpool, ⟨hkept.queueing pool hpool, .refl pool, .refl pool⟩, hseated.seating, ?_,
    fun _ _ => .refl _⟩
  exact ⟨hholds.ticket, hholds.ended, hholds.notGone, hholds.seat, hholds.unseated⟩

/-- A call that ends goes with its claim. -/
theorem Kept.turn_end {pool pool' : Pool Nat} (hkept : calls.Kept limit log)
    (hpool : calls.pool = some pool) (hcall : calls.calls[number]? = some call)
    (hcalls : calls'.calls = calls.calls.set number new) (hpool' : calls'.pool = some pool')
    (hover : new.job.progress = .over) (hticket : new.ticket = call.ticket)
    (hbag : new.seat = none → new.job.bag = []) (hmoves : pool.Moves pool')
    (hseating : pool'.Seating limit calls.calls.length) (hgone : pool'.claim number = .gone)
    (hothers : ∀ other, other ≠ number → (pool'.claim other).SameHold (pool.claim other)) :
    calls.Turn calls' limit number new := by
  have hholds := (hkept.seated pool hpool).holds number call hcall
  have hended : new.job.isOver = true := by simp [Job.isOver, hover]
  have hdirect : calls'.pool = none → calls.pool = none := by
    intro hnone
    cases hpool'.symm.trans hnone
  refine ⟨hcalls, hover ▸ .over, ?_, hdirect⟩
  intro pool'' hpool''
  obtain rfl := Option.some.inj (hpool'.symm.trans hpool'')
  refine ⟨pool, hpool, hmoves, hseating,
    ⟨hticket.trans hholds.ticket, fun _ => hgone, ?_, ?_, hbag⟩, hothers⟩
  · intro hactive
    cases hended.symm.trans hactive
  · intro hactive
    cases hended.symm.trans hactive

/-- The call is not over, and was asked before: it waits for an instance, or it is running. -/
structure Asked (calls : Calls) (number : Nat) (call : Call) : Prop where
  found : calls.calls[number]? = some call
  active : call.job.isOver = false
  polled : ∀ pool, calls.pool = some pool → pool.claim number ≠ .unpolled
  running : calls.pool = none ∨ call.seat ≠ none → call.job.progress.isRunning = true

/-- What a poll of a call comes to. -/
structure PolledTurn (calls : Calls) (limit number : Nat)
    (polled : JobAnswer Evaluation × Calls × World) : Prop where
  turn : ∃ new, calls.Turn polled.2.1 limit number new
  asked : polled.1 = .pending → ∃ new, polled.2.1.Asked number new

theorem getElem?_set_of_found (hcall : calls.calls[number]? = some call) (new : Call) :
    (calls.calls.set number new)[number]? = some new := by
  obtain ⟨hlt, -⟩ := List.getElem?_eq_some_iff.mp hcall
  simp [hlt]

theorem Kept.turn_drop (hkept : calls.Kept limit log) (hcall : calls.calls[number]? = some call)
    (hactive : call.job.isOver = false) :
    calls.Turn (calls.drop number).2 limit number { call with job := call.job.drop } := by
  unfold drop
  rw [hcall]
  simp only [hactive, Bool.false_eq_true, if_false]
  cases hpool : calls.pool with
  | none =>
      refine ⟨rfl, .over, ?_, fun _ => hpool⟩
      intro pool' hpool'
      cases hpool.symm.trans hpool'
  | some pool =>
      have hseated := hkept.seated pool hpool
      have hholds := hseated.holds number call hcall
      simp only [hholds.ticket]
      exact hkept.turn_end hpool hcall rfl rfl rfl hholds.ticket.symm hholds.unseated
        ((hkept.queueing pool hpool).moves_drop number) (hseated.seating.drop number)
        (pool.claim_drop_self number) fun other hne => pool.sameHold_drop hne

theorem Kept.turn_pollAlone (hkept : calls.Kept limit log)
    (hcall : calls.calls[number]? = some call) (hpool : calls.pool = none)
    (world : World) : calls.PolledTurn limit number (calls.pollAlone number call world) := by
  have hnone : ∀ (new : Call) (pool' : Pool Nat), (calls.setCall number new).pool ≠ some pool' := by
    intro new pool' hpool'
    cases hpool.symm.trans hpool'
  let polled : Call := { call with job := (call.job.poll world).2.1 }
  constructor
  · refine ⟨polled, rfl, Job.poll_heeding (hkept.heeding number call hcall) world, ?_,
      fun _ => hpool⟩
    exact fun pool' hpool' => absurd hpool' (hnone polled pool')
  · intro hpending
    have hrunning := Job.isRunning_of_pending hpending
    refine ⟨polled, getElem?_set_of_found hcall polled, Job.isOver_of_isRunning hrunning, ?_,
      fun _ => hrunning⟩
    exact fun pool' hpool' => absurd hpool' (hnone polled pool')

theorem pollSeated_finished {pool : Pool Nat} {ticket seat : Nat} {job : Job Evaluation}
    {result : Except Failure Evaluation}
    (hjob : { call.job with bag := calls.bags.read seat } = job)
    (hfinished : (job.poll world).1 = .finished result) :
    calls.pollSeated number call pool ticket seat world =
      (.finished result,
        ((calls.setBag seat (job.poll world).2.1.bag).setCall number
          { call with seat := some seat, job := (job.poll world).2.1 }).setPool (pool.drop ticket),
        (job.poll world).2.2) := by
  unfold pollSeated
  rw [hjob]
  generalize job.poll world = polled at hfinished ⊢
  obtain ⟨answer, job', world'⟩ := polled
  cases hfinished
  rfl

theorem pollSeated_pending {pool : Pool Nat} {ticket seat : Nat} {job : Job Evaluation}
    (hjob : { call.job with bag := calls.bags.read seat } = job)
    (hpending : (job.poll world).1 = .pending) :
    calls.pollSeated number call pool ticket seat world =
      (.pending,
        (calls.setBag seat (job.poll world).2.1.bag).setCall number
          { call with seat := some seat, job := (job.poll world).2.1 },
        (job.poll world).2.2) := by
  unfold pollSeated
  rw [hjob]
  generalize job.poll world = polled at hpending ⊢
  obtain ⟨answer, job', world'⟩ := polled
  cases hpending
  rfl

/-- The pool has moved to `pool'` already when the call works on its instance. -/
theorem Kept.turn_pollSeated {taken : Calls} {pool pool' : Pool Nat} {seat : Nat}
    (hkept : calls.Kept limit log) (hcall : calls.calls[number]? = some call)
    (hactive : call.job.isOver = false) (hpool : calls.pool = some pool)
    (htaken : taken.calls = calls.calls) (hpool' : taken.pool = some pool')
    (hmoves : ∀ later, pool'.Moves later → pool.Moves later) (hqueueing : pool'.Queueing)
    (hseating : pool'.Seating limit calls.calls.length) (hheld : pool'.claim number = .held seat)
    (hothers : ∀ other, other ≠ number → (pool'.claim other).SameHold (pool.claim other))
    (world : World) :
    calls.PolledTurn limit number (taken.pollSeated number call pool' number seat world) := by
  have hticket := ((hkept.seated pool hpool).holds number call hcall).ticket
  let seated : Job Evaluation := { call.job with bag := taken.bags.read seat }
  have hbefore : seated.progress.Heeding := hkept.heeding number call hcall
  have hheeding := Job.poll_heeding hbefore world
  have hactiveSeated : seated.isOver = false := hactive
  let new : Call := { call with seat := some seat, job := (seated.poll world).2.1 }
  have hcalls : taken.calls.set number new = calls.calls.set number new := by rw [htaken]
  rcases Job.poll_progress hactiveSeated world with
    ⟨result, hfinished, hover⟩ | ⟨hpending, hrunning⟩
  · rw [pollSeated_finished rfl hfinished]
    refine ⟨⟨new, ?_⟩, nofun⟩
    refine hkept.turn_end hpool hcall hcalls rfl hover rfl nofun
      (hmoves _ (hqueueing.moves_drop number)) (hseating.drop number)
      (pool'.claim_drop_self number) fun other hne => ?_
    exact (pool'.sameHold_drop hne).trans (hothers other hne)
  · rw [pollSeated_pending rfl hpending]
    have hactive' : new.job.isOver = false := Job.isOver_of_isRunning hrunning
    have hdirect : taken.pool = none → calls.pool = none := by
      intro hnone
      cases hpool'.symm.trans hnone
    refine ⟨⟨new, hcalls, hheeding, ?_, hdirect⟩,
      fun _ => ⟨new, ?_, hactive', ?_, fun _ => hrunning⟩⟩
    · intro pool'' hpool''
      obtain rfl := Option.some.inj (hpool'.symm.trans hpool'')
      refine ⟨pool, hpool, hmoves _ ⟨hqueueing, .refl _, .refl _⟩, hseating, ?_, hothers⟩
      refine ⟨hticket, ?_, ?_, ?_, nofun⟩
      · intro hended
        cases hended.symm.trans hactive'
      · simp [hheld]
      · intro _
        rw [hheld]
        rfl
    · change (taken.calls.set number new)[number]? = some new
      rw [htaken]
      exact getElem?_set_of_found hcall new
    · intro pool'' hpool''
      obtain rfl := Option.some.inj (hpool'.symm.trans hpool'')
      simp [hheld]

theorem Kept.turn_poll (hkept : calls.Kept limit log) (hcall : calls.calls[number]? = some call)
    (hactive : call.job.isOver = false) (world : World) :
    calls.PolledTurn limit number (calls.poll number world) := by
  unfold poll
  rw [hcall]
  simp only [hactive, Bool.false_eq_true, if_false]
  cases hpool : calls.pool with
  | none => exact hkept.turn_pollAlone hcall hpool world
  | some pool =>
      have hseated := hkept.seated pool hpool
      have hqueueing := hkept.queueing pool hpool
      have hholds := hseated.holds number call hcall
      simp only [hholds.ticket]
      cases hseat : call.seat with
      | some seat =>
          have hheld := hholds.held hactive hseat
          exact hkept.turn_pollSeated hcall hactive hpool rfl hpool (fun _ hmoves => hmoves)
            hqueueing hseated.seating hheld (fun _ _ => .refl _) world
      | none =>
          have hmoves := hqueueing.moves_poll number call.job.cancelled
          have hseating := hseated.seating.poll number call.job.cancelled
          have hothers := fun other (hne : other ≠ number) =>
            pool.sameHold_poll call.job.cancelled hne
          have hset : calls.calls = calls.calls.set number call := by
            obtain ⟨hlt, rfl⟩ := List.getElem?_eq_some_iff.mp hcall
            exact (List.set_getElem_self hlt).symm
          have hanswers := Pool.polled_poll (hholds.notGone hactive) call.job.cancelled
          have hwaits : (pool.poll number call.job.cancelled).1 = .waiting →
              (pool.poll number call.job.cancelled).2.claim number = .queued :=
            Pool.claim_of_waiting
          have hafter : ∀ seat later, (pool.poll number call.job.cancelled).1 = .held seat →
              (pool.poll number call.job.cancelled).2.Moves later → pool.Moves later :=
            fun seat later hheld => hqueueing.moves_after_held hheld
          dsimp only
          generalize pool.poll number call.job.cancelled = polled at *
          cases hanswers with
          | @held seat pool' hclaim =>
              have htaken : ((calls.setPool pool').setBag seat []).calls = calls.calls := rfl
              exact hkept.turn_pollSeated hcall hactive hpool htaken rfl
                (fun later => hafter seat later rfl) hmoves.queueing hseating hclaim hothers world
          | @waiting pool' hnotGone hunheld =>
              refine ⟨⟨call, hset, hkept.heeding number call hcall, ?_, nofun⟩,
                fun _ => ⟨call, hcall, hactive, ?_, ?_⟩⟩
              · intro pool'' hpool''
                obtain rfl := Option.some.inj hpool''
                refine ⟨pool, hpool, hmoves, hseating, ?_, hothers⟩
                refine ⟨hholds.ticket, ?_, fun _ => hnotGone, ?_, hholds.unseated⟩
                · intro hover
                  cases hover.symm.trans hactive
                · intro _
                  rw [hseat]
                  exact hunheld.symm
              · intro pool'' hpool''
                obtain rfl := Option.some.inj hpool''
                rw [hwaits rfl]
                simp
              · rintro (hnone | hsome)
                · cases hnone
                · exact absurd hseat hsome
          | @cancelled pool' hclaim =>
              refine ⟨⟨⟨call.data, some number, none, call.job.drop⟩, ?_⟩, nofun⟩
              exact hkept.turn_end hpool hcall rfl rfl rfl hholds.ticket.symm
                (fun _ => hholds.unseated hseat) hmoves hseating hclaim hothers

/-! ## Calls that were asked -/

theorem Asked.turn {other : Nat} {otherCall : Call} (hasked : calls.Asked other otherCall)
    (hkept : calls.Kept limit log) (hturn : calls.Turn calls' limit number new)
    (hne : other ≠ number) : calls'.Asked other otherCall := by
  have hfound : calls'.calls[other]? = some otherCall := by
    rw [hturn.changed, List.getElem?_set_ne (Ne.symm hne)]
    exact hasked.found
  refine ⟨hfound, hasked.active, fun pool' hpool' => ?_,
    fun hrunning => hasked.running (hrunning.imp_left hturn.direct)⟩
  obtain ⟨pool, hpool, hmoves, -⟩ := hturn.pooled pool' hpool'
  have hlt : other < pool.claims.length := by
    rw [(hkept.seated pool hpool).seating.length]
    exact (List.getElem?_eq_some_iff.mp hasked.found).1
  exact fun hunpolled => hasked.polled pool hpool (hmoves.ages.unpolled hlt hunpolled)

/-- The next poll of a call that was asked and whose token has fired. -/
structure Ends (calls : Calls) (number : Nat) (world : World)
    (polled : JobAnswer Evaluation × Calls × World) : Prop where
  answer : polled.1 = .finished (.error .cancelled)
  trace : polled.2.2.trace = world.trace
  pool : polled.2.1.pool = calls.pool.map (·.drop number)

theorem Asked.ends (hasked : calls.Asked number call) (hkept : calls.Kept limit log)
    (hcancelled : call.job.cancelled = true) (world : World) :
    calls.Ends number world (calls.poll number world) := by
  have hheeding := hkept.heeding number call hasked.found
  unfold poll
  rw [hasked.found]
  simp only [hasked.active, Bool.false_eq_true, if_false]
  cases hpool : calls.pool with
  | none =>
      obtain ⟨hanswer, hworld⟩ := Job.poll_of_cancelled hheeding (hasked.running (.inl hpool))
        hcancelled world
      refine ⟨hanswer, ?_, ?_⟩
      · change (call.job.poll world).2.2.trace = world.trace
        rw [hworld]
      · rw [hpool]
        exact hpool
  | some pool =>
      have hholds := (hkept.seated pool hpool).holds number call hasked.found
      simp only [hholds.ticket]
      cases hseat : call.seat with
      | some seat =>
          let seated : Job Evaluation := { call.job with bag := calls.bags.read seat }
          have hheeding' : seated.progress.Heeding := hheeding
          have hrunning : seated.progress.isRunning = true :=
            hasked.running (.inr (by simp [hseat]))
          obtain ⟨hanswer, hworld⟩ := Job.poll_of_cancelled hheeding' hrunning hcancelled world
          dsimp only
          rw [pollSeated_finished rfl hanswer]
          refine ⟨rfl, ?_, ?_⟩
          · change (seated.poll world).2.2.trace = world.trace
            rw [hworld]
          · rw [hpool]
            rfl
      | none =>
          have hpolled : pool.poll number call.job.cancelled = (.cancelled, pool.drop number) := by
            have hunheld := hholds.seat hasked.active
            rw [hseat] at hunheld
            unfold Pool.poll
            cases hclaim : pool.claim number with
            | unpolled => exact absurd hclaim (hasked.polled pool hpool)
            | queued => simp [hcancelled]
            | offered item => simp [hcancelled]
            | held item =>
                rw [hclaim] at hunheld
                cases hunheld
            | gone => exact absurd hclaim (hholds.notGone hasked.active)
          simp only [hpolled]
          refine ⟨rfl, rfl, ?_⟩
          rw [hpool]
          rfl

end Calls

namespace CallTraffic

variable {traffic : CallTraffic} {limit number : Nat} {call : Call} {log : WaitLog}

/-- One more event, and what it means for the calls that wait. -/
def follow (state : CallTraffic × WaitLog) (event : CallEvent) : CallTraffic × WaitLog :=
  (state.1.step event, Calls.follow state.2 state.1.calls (state.1.step event).calls)

def waitLog (traffic : CallTraffic) (events : List CallEvent) : WaitLog :=
  (events.foldl follow (traffic, .empty)).2

theorem follow_run (traffic : CallTraffic) (log : WaitLog) (events : List CallEvent) :
    (events.foldl follow (traffic, log)).1 = traffic.run events := by
  induction events generalizing traffic log with
  | nil => rfl
  | cons event events ih => exact ih _ _

/-- An event that makes no call leaves the calls alone or changes the one that it is about. -/
theorem turn_step (hkept : traffic.calls.Kept limit log) {event : CallEvent}
    (hevent : event = .poll number ∨ event = .cancel number ∨ event = .drop number) :
    (traffic.step event).calls = traffic.calls ∨
      ∃ new, traffic.calls.Turn (traffic.step event).calls limit number new := by
  cases hcall : traffic.calls.calls[number]? with
  | none =>
      left
      rcases hevent with rfl | rfl | rfl
      · simp [step, Calls.poll, hcall]
      · simp [step, Calls.cancel, hcall]
      · simp [step, Calls.drop, hcall]
  | some call =>
      rcases hevent with rfl | rfl | rfl
      · cases hactive : call.job.isOver with
        | true =>
            left
            simp [step, Calls.poll, hcall, hactive]
        | false => exact .inr (hkept.turn_poll hcall hactive traffic.world).turn
      · exact .inr ⟨_, hkept.turn_cancel hcall⟩
      · cases hactive : call.job.isOver with
        | true =>
            left
            simp [step, Calls.drop, hcall, hactive]
        | false => exact .inr ⟨_, hkept.turn_drop hcall hactive⟩

theorem kept_step (hkept : traffic.calls.Kept limit log) (event : CallEvent) :
    (traffic.step event).calls.Kept limit
      (Calls.follow log traffic.calls (traffic.step event).calls) := by
  have hchange : ∀ number, event = .poll number ∨ event = .cancel number ∨ event = .drop number →
      (traffic.step event).calls.Kept limit
        (Calls.follow log traffic.calls (traffic.step event).calls) := by
    intro number hevent
    rcases turn_step hkept hevent with hsame | ⟨new, hturn⟩
    · rw [hsame]
      exact hkept.stay
    · exact hkept.turn hturn
  cases event with
  | start data cancelled => exact hkept.start data cancelled
  | poll number => exact hchange number (.inl rfl)
  | cancel number => exact hchange number (.inr (.inl rfl))
  | drop number => exact hchange number (.inr (.inr rfl))

theorem kept_follow (hkept : traffic.calls.Kept limit log) (events : List CallEvent) :
    (events.foldl follow (traffic, log)).1.calls.Kept limit
      (events.foldl follow (traffic, log)).2 := by
  induction events generalizing traffic log with
  | nil => exact hkept
  | cons event events ih => exact ih (kept_step hkept event)

theorem kept_run (program : Program) (top : Bool) (max : Option Nat) (world : World)
    (events : List CallEvent) :
    ((CallTraffic.new program top max world).run events).calls.Kept
      (Nat.max (max.getD program.engine.options.poolMax) 1)
      ((CallTraffic.new program top max world).waitLog events) := by
  have hstart : (CallTraffic.new program top max world).calls.Kept _ .empty :=
    Calls.kept_new program top max
  have hkept := kept_follow hstart events
  rw [follow_run] at hkept
  exact hkept

/-- A call that was asked stays so until it is asked again or dropped, whatever happens to it and
the others. -/
theorem asked_step (hkept : traffic.calls.Kept limit log) (hasked : traffic.calls.Asked number call)
    {event : CallEvent} (hpoll : event ≠ .poll number) (hdrop : event ≠ .drop number) :
    ∃ call', (traffic.step event).calls.Asked number call' := by
  have hother : ∀ other, other ≠ number →
      event = .poll other ∨ event = .cancel other ∨ event = .drop other →
        ∃ call', (traffic.step event).calls.Asked number call' := by
    intro other hne hevent
    rcases turn_step hkept hevent with hsame | ⟨new, hturn⟩
    · rw [hsame]
      exact ⟨call, hasked⟩
    · exact ⟨call, hasked.turn hkept hturn (Ne.symm hne)⟩
  cases event with
  | start data cancelled =>
      refine ⟨call, ?_⟩
      change (traffic.calls.start data cancelled).2.Asked number call
      rw [Calls.start_eq]
      obtain ⟨hlt, -⟩ := List.getElem?_eq_some_iff.mp hasked.found
      refine ⟨?_, hasked.active, ?_, ?_⟩
      · rw [← hasked.found]
        exact List.getElem?_append_left hlt
      · intro pool' hpool'
        obtain ⟨pool, hpool, rfl⟩ := Option.map_eq_some_iff.mp hpool'
        rw [Pool.claim_enter_of_lt (by rwa [(hkept.seated pool hpool).seating.length])]
        exact hasked.polled pool hpool
      · exact fun hrunning => hasked.running (hrunning.imp_left Option.map_eq_none_iff.mp)
  | poll other => exact hother other (fun heq => hpoll (heq ▸ rfl)) (.inl rfl)
  | cancel other =>
      by_cases heq : other = number
      · subst heq
        refine ⟨{ call with job := call.job.cancel }, ?_⟩
        change (traffic.calls.cancel other).Asked other _
        unfold Calls.cancel
        rw [hasked.found]
        exact ⟨Calls.getElem?_set_of_found hasked.found _, hasked.active, hasked.polled,
          hasked.running⟩
      · exact hother other heq (.inr (.inl rfl))
  | drop other => exact hother other (fun heq => hdrop (heq ▸ rfl)) (.inr (.inr rfl))

theorem asked_run (hkept : traffic.calls.Kept limit log)
    (hasked : ∃ call, traffic.calls.Asked number call) {events : List CallEvent}
    (hothers : ∀ event ∈ events, event ≠ .poll number ∧ event ≠ .drop number) :
    ∃ call, (traffic.run events).calls.Asked number call := by
  induction events generalizing traffic log with
  | nil => exact hasked
  | cons event events ih =>
      obtain ⟨call, hcall⟩ := hasked
      obtain ⟨hpoll, hdrop⟩ := hothers event List.mem_cons_self
      refine ih (kept_step hkept event) (asked_step hkept hcall hpoll hdrop) ?_
      exact fun other hmem => hothers other (List.mem_cons_of_mem event hmem)

theorem asked_of_pending (hkept : traffic.calls.Kept limit log)
    (hpending : (traffic.calls.poll number traffic.world).1 = .pending) :
    ∃ call, (traffic.step (.poll number)).calls.Asked number call := by
  cases hcall : traffic.calls.calls[number]? with
  | none => simp [Calls.poll, hcall] at hpending
  | some call =>
      cases hactive : call.job.isOver with
      | true => simp [Calls.poll, hcall, hactive] at hpending
      | false => exact (hkept.turn_poll hcall hactive traffic.world).asked hpending

end CallTraffic

/-! ## The next poll -/

/-- The evaluations that a caller may start and poll. -/
inductive Task : Computation Evaluation → Prop
  | run (engine : Engine) (logic data : Json) (above : List Json) :
      Task (engine.run logic data above)
  | resume (engine : Engine) (suspension : Suspension) (replacements : Replacements) (data : Json)
      (above : List Json) : Task (engine.resume suspension replacements data above)
  | call (program : Program) (data : Json) : Task (program.call data)

theorem Task.heeding {computation : Computation Evaluation} (htask : Task computation) :
    computation.Heeding := by
  cases htask with
  | run engine logic data above => exact engine.run_heeding logic data above
  | resume engine suspension replacements data above =>
      exact engine.resume_heeding suspension replacements data above
  | call program data => exact program.call_heeding data

/-- A run, a resumption or a call that was polled and had to wait ends with `Failure.cancelled` at
the next poll when its token has fired by then, and that poll calls no operator.  This holds of all
engines and operators.  A call of a pooled program may have waited for an instance, or on it: an
instance that it held or had been sent goes to the call that waits longest, and becomes free when
none waits. -/
theorem cancelled_at_next_poll :
    (∀ (computation : Computation Evaluation) (job : Job Evaluation) (world later : World),
      Task computation → Job.Reached computation job → (job.poll world).1 = .pending →
        let polled := (job.poll world).2.1.cancel.poll later
        polled.1 = .finished (.error .cancelled) ∧ polled.2.2.trace = later.trace) ∧
    (∀ (program : Program) (top : Bool) (max : Option Nat) (world : World)
      (before between : List CallEvent) (number : Nat),
      let new := CallTraffic.new program top max world
      ((new.run before).calls.poll number (new.run before).world).1 = .pending →
      (∀ event ∈ between, event ≠ .poll number ∧ event ≠ .drop number) →
        let traffic := new.run (before ++ .poll number :: between)
        let log := new.waitLog (before ++ .poll number :: between)
        let polled := traffic.calls.poll number traffic.world
        ∃ call, traffic.calls.calls[number]? = some call ∧ (call.job.cancelled = true →
          polled.1 = .finished (.error .cancelled) ∧
          polled.2.2.trace = traffic.world.trace ∧
          ∀ pool, traffic.calls.pool = some pool → ∃ pool', polled.2.1.pool = some pool' ∧
            call.ticket = some number ∧ pool'.claim number = .gone ∧
            ∀ item, pool.claim number = .held item ∨ pool.claim number = .offered item →
              (∀ first rest, log.arrived.filter pool.isWaiting = first :: rest →
                first ≠ number ∧ pool'.claim first = .offered item ∧
                  ∃ waiter, traffic.calls.calls[first]? = some waiter ∧
                    waiter.ticket = some first ∧ waiter.job.isOver = false) ∧
              (log.arrived.filter pool.isWaiting = [] → pool'.free = item :: pool.free))) := by
  constructor
  · intro computation job world later htask hreached hpending
    let fired : Job Evaluation := (job.poll world).2.1.cancel
    have hheeding : fired.progress.Heeding :=
      (Job.Reached.poll hreached world).heeding htask.heeding
    have hrunning : fired.progress.isRunning = true := Job.isRunning_of_pending hpending
    obtain ⟨hanswer, hworld⟩ := Job.poll_of_cancelled hheeding hrunning rfl later
    exact ⟨hanswer, by rw [hworld]⟩
  · intro program top max world before between number new hpending hothers traffic log polled
    have hasked : ∃ call, traffic.calls.Asked number call := by
      have hbefore := CallTraffic.kept_run program top max world before
      have hfirst := CallTraffic.asked_of_pending hbefore hpending
      have hafter := CallTraffic.asked_run (CallTraffic.kept_step hbefore (.poll number)) hfirst
        hothers
      simpa only [traffic, CallTraffic.run, List.foldl_append, List.foldl_cons] using hafter
    have hkept : traffic.calls.Kept _ log :=
      CallTraffic.kept_run program top max world (before ++ .poll number :: between)
    obtain ⟨call, hcall⟩ := hasked
    refine ⟨call, hcall.found, fun hcancelled => ?_⟩
    have hends := hcall.ends hkept hcancelled traffic.world
    refine ⟨hends.answer, hends.trace, fun pool hpool => ?_⟩
    have hseated := hkept.seated pool hpool
    have hline := (hkept.inOrder pool hpool).line_eq
    refine ⟨pool.drop number, ?_, (hseated.holds number call hcall.found).ticket,
      pool.claim_drop_self number, fun item hitem => ?_⟩
    · rw [hends.pool, hpool]
      rfl
    have hitem' : (pool.claim number).item? = some item := by
      rcases hitem with hheld | hoffered
      · rw [hheld]
        rfl
      · rw [hoffered]
        rfl
    obtain ⟨hsent, hfreed⟩ := Pool.drop_spec hitem'
    rw [← hline]
    refine ⟨fun first rest hfirst => ?_, hfreed⟩
    have hwaiting : pool.isWaiting first = true := by
      rw [← (hkept.queueing pool hpool).mem_line, hfirst]
      exact List.mem_cons_self
    have hqueued := Pool.isWaiting_iff.mp hwaiting
    refine ⟨?_, hsent first rest hfirst, ?_⟩
    · rintro rfl
      rw [hqueued] at hitem'
      cases hitem'
    · have hlt : first < traffic.calls.calls.length := by
        rw [← hseated.seating.length]
        exact Pool.lt_length_of_isWaiting hwaiting
      have hholds := hseated.holds first _ (List.getElem?_eq_getElem hlt)
      refine ⟨_, List.getElem?_eq_getElem hlt, hholds.ticket, ?_⟩
      rw [← Bool.not_eq_true]
      intro hover
      cases hqueued.symm.trans (hholds.ended hover)

/-- The first of two calls waits on the only instance and the second one waits for it; when the
first one is cancelled, its next poll sends the instance to the second one.  A run of the same
operator ends likewise. -/
theorem cancelled_at_next_poll_handedOn :
    let new := CallTraffic.new markProgram true (some 1) (.start 0)
    let before : List CallEvent := [.start .null false, .start .null false]
    let traffic := new.run (before ++ .poll 0 :: [.poll 1, .cancel 0])
    let job := Job.new (markEngine.run (.object [("mark", .null)]) .null []) false
    ((new.run before).calls.poll 0 (new.run before).world).1 = .pending ∧
      (traffic.calls.poll 0 traffic.world).1 = .finished (.error .cancelled) ∧
      (∃ pool, (traffic.calls.poll 0 traffic.world).2.1.pool = some pool ∧
        pool.claim 1 = .offered 0) ∧
      (job.poll (.start 0)).1 = .pending ∧
      ((job.poll (.start 0)).2.1.cancel.poll (.start 0)).1 = .finished (.error .cancelled) := by
  intro new before traffic job
  obtain ⟨hjobs, hcalls⟩ := cancelled_at_next_poll
  have hpending : ((new.run before).calls.poll 0 (new.run before).world).1 = .pending := rfl
  have hothers : ∀ event ∈ [CallEvent.poll 1, .cancel 0], event ≠ .poll 0 ∧ event ≠ .drop 0 := by
    simp
  obtain ⟨call, hcall, hends⟩ :=
    hcalls markProgram true (some 1) (.start 0) before [.poll 1, .cancel 0] 0 hpending hothers
  have hcancelled : call.job.cancelled = true := by
    cases hcall
    rfl
  obtain ⟨hanswer, -, hpools⟩ := hends hcancelled
  have hjob : (job.poll (.start 0)).1 = .pending := rfl
  refine ⟨hpending, hanswer, ?_, hjob, ?_⟩
  · obtain ⟨pool', hpool', -, -, hitems⟩ := hpools _ rfl
    have hsent := (hitems 0 (.inl rfl)).1 1 [] rfl
    exact ⟨pool', hpool', hsent.2.1⟩
  · exact (hjobs _ job (.start 0) (.start 0) (.run markEngine _ _ _) (.new false) hjob).1

end DecisionLogic
