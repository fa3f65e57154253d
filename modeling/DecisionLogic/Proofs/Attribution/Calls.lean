import DecisionLogic.Proofs.Attribution.Tracking
import DecisionLogic.Proofs.Calls.Traffic

/-!
# Calls of two programs side by side

Two programs whose evaluations track each other go through the same traffic in step: their calls
wait for the same instances, find the same state on them and end at the same polls, with the same
outcomes or with related failures.
-/

namespace DecisionLogic

variable {α : Type} {F : Failure → Failure → Prop}

/-! ## Jobs -/

inductive Progress.Tracks (F : Failure → Failure → Prop) : Progress α → Progress α → Prop
  | unstarted {c d : Computation α} (htracks : c.Tracks F Eq d) :
      Tracks F (.unstarted c) (.unstarted d)
  | running {m n : Moment α} (htracks : m.Tracks F Eq n) : Tracks F (.running m) (.running n)
  | over : Tracks F .over .over

structure Job.Tracks (F : Failure → Failure → Prop) (job job' : Job α) : Prop where
  bag : job.bag = job'.bag
  cancelled : job.cancelled = job'.cancelled
  progress : job.progress.Tracks F job'.progress

inductive JobAnswer.Tracks (F : Failure → Failure → Prop) : JobAnswer α → JobAnswer α → Prop
  | finished {result result' : Except Failure α} (hresult : Tracked F Eq result result') :
      Tracks F (.finished result) (.finished result')
  | pending : Tracks F .pending .pending
  | over : Tracks F .over .over

/-- What two polls have left: answers that are related, and what goes on from there. -/
structure PollTracks {β : Type} (F : Failure → Failure → Prop) (R : β → β → Prop)
    (polled polled' : JobAnswer α × β × World) : Prop where
  answer : polled.1.Tracks F polled'.1
  rest : R polled.2.1 polled'.2.1
  world : polled.2.2 = polled'.2.2

namespace Job

variable {job job' : Job α}

theorem settle_tracks {m n : Moment α} (htracks : m.Tracks F Eq n) :
    PollTracks F (Job.Tracks F) (settle m) (settle n) := by
  cases htracks with
  | finished world hresult => exact ⟨.finished hresult, ⟨rfl, rfl, .over⟩, rfl⟩
  | waiting world ready hrest =>
      exact ⟨.pending, ⟨rfl, rfl, .running (.waiting world ready hrest)⟩, rfl⟩

theorem Tracks.poll (htracks : job.Tracks F job') (world : World) :
    PollTracks F (Job.Tracks F) (job.poll world) (job'.poll world) := by
  have hprogress := htracks.progress
  unfold Job.poll
  rw [← htracks.bag, ← htracks.cancelled]
  generalize job.progress = progress at hprogress ⊢
  generalize job'.progress = progress' at hprogress ⊢
  cases hprogress with
  | unstarted hcomputations => exact settle_tracks (hcomputations _)
  | running hmoments => exact settle_tracks (hmoments.poll _)
  | _ => exact ⟨.over, htracks, rfl⟩

theorem Tracks.isOver_eq (htracks : job.Tracks F job') : job.isOver = job'.isOver := by
  have hprogress := htracks.progress
  unfold isOver
  generalize job.progress = progress at hprogress ⊢
  generalize job'.progress = progress' at hprogress ⊢
  cases hprogress <;> rfl

end Job

/-! ## Calls -/

structure Program.Tracks (F : Failure → Failure → Prop) (program program' : Program) : Prop where
  kind : program.kind = program'.kind
  stateful : program.stateful = program'.stateful
  options : program.engine.options = program'.engine.options
  call : ∀ data, (program.call data).Tracks F Eq (program'.call data)

structure Call.Tracks (F : Failure → Failure → Prop) (call call' : Call) : Prop where
  ticket : call.ticket = call'.ticket
  seat : call.seat = call'.seat
  job : call.job.Tracks F call'.job

structure Calls.Tracks (F : Failure → Failure → Prop) (calls calls' : Calls) : Prop where
  program : calls.program.Tracks F calls'.program
  pool : calls.pool = calls'.pool
  bags : calls.bags = calls'.bags
  calls : List.Forall₂ (Call.Tracks F) calls.calls calls'.calls

namespace Calls

theorem new_tracks {program program' : Program} (htracks : program.Tracks F program') (top : Bool)
    (max : Option Nat) : (Calls.new program top max).Tracks F (Calls.new program' top max) := by
  refine ⟨htracks, ?_, rfl, .nil⟩
  unfold Calls.new Program.needsPool
  rw [htracks.kind, htracks.stateful, htracks.options]

namespace Tracks

variable {calls calls' : Calls} {call call' : Call} {number : Nat}

theorem getElem? (htracks : calls.Tracks F calls') (number : Nat) :
    Option.Rel (Call.Tracks F) calls.calls[number]? calls'.calls[number]? := by
  have hcalls := htracks.calls
  generalize calls.calls = all at hcalls ⊢
  generalize calls'.calls = all' at hcalls ⊢
  induction hcalls generalizing number with
  | nil => exact .none
  | cons hfirst _ ih =>
      cases number with
      | zero => exact .some hfirst
      | succ number => exact ih number

theorem setCall (htracks : calls.Tracks F calls') (number : Nat) (hcall : call.Tracks F call') :
    (calls.setCall number call).Tracks F (calls'.setCall number call') := by
  refine ⟨htracks.program, htracks.pool, htracks.bags, ?_⟩
  have hcalls := htracks.calls
  unfold Calls.setCall
  dsimp only
  generalize calls.calls = all at hcalls ⊢
  generalize calls'.calls = all' at hcalls ⊢
  induction hcalls generalizing number with
  | nil => exact .nil
  | cons hfirst hrest ih =>
      cases number with
      | zero => exact .cons hcall hrest
      | succ number => exact .cons hfirst (ih number)

theorem setPool (htracks : calls.Tracks F calls') (pool : Pool Nat) :
    (calls.setPool pool).Tracks F (calls'.setPool pool) :=
  ⟨htracks.program, rfl, htracks.bags, htracks.calls⟩

theorem setBag (htracks : calls.Tracks F calls') (seat : Nat) (bag : Bag) :
    (calls.setBag seat bag).Tracks F (calls'.setBag seat bag) := by
  refine ⟨htracks.program, htracks.pool, ?_, htracks.calls⟩
  unfold Calls.setBag
  rw [htracks.bags]

theorem start (htracks : calls.Tracks F calls') (data : Json) (cancelled : Bool) :
    (calls.start data cancelled).2.Tracks F (calls'.start data cancelled).2 := by
  rw [start_eq, start_eq, htracks.pool]
  refine ⟨htracks.program, rfl, htracks.bags, List.rel_append htracks.calls (.cons ?_ .nil)⟩
  exact ⟨rfl, rfl, rfl, rfl, .unstarted (htracks.program.call data)⟩

theorem cancel (htracks : calls.Tracks F calls') (number : Nat) :
    (calls.cancel number).Tracks F (calls'.cancel number) := by
  have hcalls := htracks.getElem? number
  unfold Calls.cancel
  generalize calls.calls[number]? = known at hcalls ⊢
  generalize calls'.calls[number]? = known' at hcalls ⊢
  cases hcalls with
  | none => exact htracks
  | some hcall =>
      exact htracks.setCall number
        ⟨hcall.ticket, hcall.seat, hcall.job.bag, rfl, hcall.job.progress⟩

theorem drop (htracks : calls.Tracks F calls') (number : Nat) :
    (calls.drop number).2.Tracks F (calls'.drop number).2 := by
  have hcalls := htracks.getElem? number
  unfold Calls.drop
  generalize calls.calls[number]? = known at hcalls ⊢
  generalize calls'.calls[number]? = known' at hcalls ⊢
  cases hcalls with
  | none => exact htracks
  | @some call call' hcall =>
      obtain ⟨data, ticket, seat, job⟩ := call
      obtain ⟨data', ticket', seat', job'⟩ := call'
      obtain ⟨rfl, rfl, hjob⟩ := hcall
      have hdropped : Call.Tracks F ⟨data, ticket, seat, job.drop⟩
          ⟨data', ticket, seat, job'.drop⟩ := ⟨rfl, rfl, hjob.bag, hjob.cancelled, .over⟩
      dsimp only
      rw [← hjob.isOver_eq, ← htracks.pool]
      split
      · exact htracks
      · split
        · exact (htracks.setCall number hdropped).setPool _
        · exact htracks.setCall number hdropped

theorem pollAlone (htracks : calls.Tracks F calls') (hcall : call.Tracks F call') (number : Nat)
    (world : World) :
    PollTracks F (Calls.Tracks F) (calls.pollAlone number call world)
      (calls'.pollAlone number call' world) := by
  have hpoll := hcall.job.poll world
  exact ⟨hpoll.answer, htracks.setCall number ⟨hcall.ticket, hcall.seat, hpoll.rest⟩, hpoll.world⟩

theorem pollSeated (htracks : calls.Tracks F calls') (hcall : call.Tracks F call') (number : Nat)
    (pool : Pool Nat) (ticket seat : Nat) (world : World) :
    PollTracks F (Calls.Tracks F) (calls.pollSeated number call pool ticket seat world)
      (calls'.pollSeated number call' pool ticket seat world) := by
  have hjob : Job.Tracks F { call.job with bag := calls.bags.read seat }
      { call'.job with bag := calls'.bags.read seat } := by
    rw [htracks.bags]
    exact ⟨rfl, hcall.job.cancelled, hcall.job.progress⟩
  have hpoll := hjob.poll world
  unfold Calls.pollSeated
  generalize Job.poll { call.job with bag := calls.bags.read seat } world = polled at hpoll ⊢
  generalize Job.poll { call'.job with bag := calls'.bags.read seat } world = polled' at hpoll ⊢
  obtain ⟨answer, job, world⟩ := polled
  obtain ⟨answer', job', world'⟩ := polled'
  obtain ⟨hanswer, hjob, rfl⟩ := hpoll
  dsimp only at hanswer hjob ⊢
  have hseated : Call.Tracks F { call with seat := some seat, job }
      { call' with seat := some seat, job := job' } := ⟨hcall.ticket, rfl, hjob⟩
  have hcalls := (htracks.setBag seat job.bag).setCall number hseated
  rw [← hjob.bag]
  cases hanswer with
  | finished hresult => exact ⟨.finished hresult, hcalls.setPool _, rfl⟩
  | pending => exact ⟨.pending, hcalls, rfl⟩
  | _ => exact ⟨.over, hcalls, rfl⟩

theorem poll (htracks : calls.Tracks F calls') (hcancelled : F .cancelled .cancelled)
    (number : Nat) (world : World) :
    PollTracks F (Calls.Tracks F) (calls.poll number world) (calls'.poll number world) := by
  have hcalls := htracks.getElem? number
  unfold Calls.poll
  generalize calls.calls[number]? = known at hcalls ⊢
  generalize calls'.calls[number]? = known' at hcalls ⊢
  cases hcalls with
  | none => exact ⟨.over, htracks, rfl⟩
  | @some call call' hcall =>
      obtain ⟨data, ticket, seat, job⟩ := call
      obtain ⟨data', ticket', seat', job'⟩ := call'
      obtain ⟨rfl, rfl, hjob⟩ := id hcall
      dsimp only
      rw [← hjob.isOver_eq, ← htracks.pool, ← hjob.cancelled]
      split
      · exact ⟨.over, htracks, rfl⟩
      · cases calls.pool with
        | none => exact htracks.pollAlone hcall number world
        | some pool =>
            cases ticket with
            | none => exact htracks.pollAlone hcall number world
            | some ticket =>
                cases seat with
                | some seat => exact htracks.pollSeated hcall number pool ticket seat world
                | none =>
                    dsimp only
                    rcases pool.poll ticket job.cancelled with ⟨answer, pool'⟩
                    cases answer with
                    | held seat =>
                        have hseated := (htracks.setPool pool').setBag seat []
                        exact hseated.pollSeated hcall number pool' ticket seat world
                    | waiting => exact ⟨.pending, htracks.setPool pool', rfl⟩
                    | cancelled =>
                        refine ⟨.finished (.error hcancelled), ?_, rfl⟩
                        exact (htracks.setPool pool').setCall number
                          ⟨rfl, rfl, hjob.bag, hjob.cancelled, .over⟩
                    | gone => exact ⟨.over, htracks.setPool pool', rfl⟩

end Tracks
end Calls

/-! ## Traffic -/

structure CallTraffic.Tracks (F : Failure → Failure → Prop) (traffic traffic' : CallTraffic) :
    Prop where
  calls : traffic.calls.Tracks F traffic'.calls
  world : traffic.world = traffic'.world

namespace CallTraffic

variable {traffic traffic' : CallTraffic}

theorem Tracks.step (htracks : traffic.Tracks F traffic') (hcancelled : F .cancelled .cancelled)
    (event : CallEvent) : (traffic.step event).Tracks F (traffic'.step event) := by
  cases event with
  | start data cancelled => exact ⟨htracks.calls.start data cancelled, htracks.world⟩
  | poll number =>
      have hpoll := htracks.calls.poll hcancelled number traffic.world
      unfold CallTraffic.step
      rw [← htracks.world]
      exact ⟨hpoll.rest, hpoll.world⟩
  | cancel number => exact ⟨htracks.calls.cancel number, htracks.world⟩
  | drop number => exact ⟨htracks.calls.drop number, htracks.world⟩

theorem Tracks.run (htracks : traffic.Tracks F traffic') (hcancelled : F .cancelled .cancelled)
    (events : List CallEvent) : (traffic.run events).Tracks F (traffic'.run events) := by
  induction events generalizing traffic traffic' with
  | nil => exact htracks
  | cons event events ih => exact ih (htracks.step hcancelled event)

/-- Whatever happens to the calls of the two programs, a poll of one is answered as the same poll of
the other. -/
theorem poll_run_tracks {program program' : Program} (htracks : program.Tracks F program')
    (hcancelled : F .cancelled .cancelled) (top : Bool) (max : Option Nat) (world : World)
    (events : List CallEvent) (number : Nat) :
    PollTracks F (Calls.Tracks F)
      (((new program top max world).run events).calls.poll number
        ((new program top max world).run events).world)
      (((new program' top max world).run events).calls.poll number
        ((new program' top max world).run events).world) := by
  have hnew : (new program top max world).Tracks F (new program' top max world) :=
    ⟨Calls.new_tracks htracks top max, rfl⟩
  have hrun := hnew.run hcancelled events
  rw [← hrun.world]
  exact hrun.calls.poll hcancelled number _

end CallTraffic
end DecisionLogic
