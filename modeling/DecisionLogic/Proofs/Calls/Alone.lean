import DecisionLogic.Program.Calls

/-!
# A call alone

A call that is made alone runs its job and nothing else, whether its program is pooled or not: a new
pool has an instance for it at once, and the state goes through that instance unchanged.
-/

namespace DecisionLogic

namespace Bags

@[simp] theorem read_write_self (bags : Bags) (number : Nat) (bag : Bag) :
    (bags.write number bag).read number = bag := by
  have hwriteAt : ∀ (states : List Bag) (number : Nat),
      (writeAt states number bag)[number]? = some bag := by
    intro states number
    induction number generalizing states with
    | zero => cases states <;> rfl
    | succ number ih =>
        cases states with
        | nil => exact ih []
        | cons first rest => exact ih rest
  simp [read, write, List.getD_eq_getElem?_getD, hwriteAt]

theorem read_write_of_ne (bags : Bags) {number other : Nat} (hne : other ≠ number) (bag : Bag) :
    (bags.write number bag).read other = bags.read other := by
  have hwriteAt : ∀ (states : List Bag) (number other : Nat), other ≠ number →
      (writeAt states number bag).getD other [] = states.getD other [] := by
    intro states number
    induction number generalizing states with
    | zero =>
        intro other hne
        cases other with
        | zero => exact absurd rfl hne
        | succ other => cases states <;> rfl
    | succ number ih =>
        intro other hne
        cases other with
        | zero => cases states <;> rfl
        | succ other =>
            cases states with
            | nil => exact ih [] other (by omega)
            | cons first rest => exact ih rest other (by omega)
  exact hwriteAt bags.states number other hne

end Bags

/-- A call of the program, made alone and polled until it ends, at most `polls` times. -/
def Program.callAlone (program : Program) (top : Bool) (max : Option Nat) (data : Json)
    (world : World) (polls : Nat) : JobAnswer Evaluation × Calls × World :=
  ((Calls.new program top max).start data false).2.pollUntilOver 0 world polls

theorem Job.isOver_of_poll_pending {α : Type} {job job' : Job α} {world world' : World}
    (hpoll : job.poll world = (.pending, job', world')) : job'.isOver = false := by
  have hsettle : ∀ moment : Moment α, settle moment = (.pending, job', world') →
      job'.isOver = false := by
    intro moment hsettle
    cases moment with
    | finished world result => cases hsettle
    | waiting world ready rest =>
        cases hsettle
        rfl
  unfold poll at hpoll
  split at hpoll
  · exact hsettle _ hpoll
  · exact hsettle _ hpoll
  · cases hpoll

namespace Calls

/-- The calls are one call, whose next poll is the next poll of the job. -/
inductive Serving : Calls → Job Evaluation → Prop
  | direct {calls : Calls} {call : Call} (hcalls : calls.calls = [call])
      (hpool : calls.pool = none) : Serving calls call.job
  /-- The first poll of the call finds an instance. -/
  | arriving {calls : Calls} {call : Call} {pool pool' : Pool Nat} {ticket seat : Nat}
      (hcalls : calls.calls = [call]) (hpool : calls.pool = some pool)
      (hticket : call.ticket = some ticket) (hseat : call.seat = none)
      (hheld : pool.poll ticket call.job.cancelled = (.held seat, pool'))
      (hbag : call.job.bag = []) : Serving calls call.job
  | seated {calls : Calls} {call : Call} {pool : Pool Nat} {ticket seat : Nat}
      (hcalls : calls.calls = [call]) (hpool : calls.pool = some pool)
      (hticket : call.ticket = some ticket) (hseat : call.seat = some seat) :
      Serving calls { call.job with bag := calls.bags.read seat }

theorem serving_start (program : Program) (top : Bool) (max : Option Nat) (data : Json) :
    Serving ((Calls.new program top max).start data false).2
      (Job.new (program.call data) false) := by
  let job := Job.new (program.call data) false
  unfold new start
  by_cases hpooled : (top && program.needsPool) = true
  · simp only [hpooled, if_true]
    exact @Serving.arriving _ ⟨data, some 0, none, job⟩ _ _ _ _ rfl rfl rfl rfl rfl rfl
  · simp only [hpooled]
    exact @Serving.direct _ ⟨data, none, none, job⟩ rfl rfl

theorem serving_pollSeated {calls : Calls} {call : Call} {pool : Pool Nat} {ticket seat : Nat}
    {job : Job Evaluation} (hcalls : calls.calls = [call]) (hpool : calls.pool = some pool)
    (hticket : call.ticket = some ticket)
    (hjob : { call.job with bag := calls.bags.read seat } = job) (world : World) :
    ∃ calls', calls.pollSeated 0 call pool ticket seat world =
        ((job.poll world).1, calls', (job.poll world).2.2) ∧
      ((job.poll world).1 = .pending → Serving calls' (job.poll world).2.1) := by
  unfold pollSeated
  rw [hjob]
  rcases job.poll world with ⟨answer, job', world'⟩
  cases answer with
  | finished result => exact ⟨_, rfl, nofun⟩
  | pending =>
      refine ⟨_, rfl, fun _ => ?_⟩
      let call' : Call := { call with seat := some seat, job := job' }
      have hcalls' : ((calls.setBag seat job'.bag).setCall 0 call').calls = [call'] := by
        simp [setCall, setBag, hcalls]
      have hserving := @Serving.seated _ call' pool ticket seat hcalls' hpool hticket rfl
      simpa [call', setCall, setBag] using hserving
  | _ => exact ⟨_, rfl, nofun⟩

theorem Serving.poll {calls : Calls} {job : Job Evaluation} (hserving : Serving calls job)
    (hactive : job.isOver = false) (world : World) :
    ∃ calls', calls.poll 0 world = ((job.poll world).1, calls', (job.poll world).2.2) ∧
      ((job.poll world).1 = .pending → Serving calls' (job.poll world).2.1) := by
  unfold Calls.poll
  cases hserving with
  | @direct call hcalls hpool =>
      simp only [hcalls, hactive, hpool, List.getElem?_cons_zero]
      unfold pollAlone
      refine ⟨_, rfl, fun _ => ?_⟩
      let call' : Call := { call with job := (call.job.poll world).2.1 }
      have hcalls' : (calls.setCall 0 call').calls = [call'] := by simp [setCall, hcalls]
      exact @Serving.direct _ call' hcalls' hpool
  | @arriving call pool pool' ticket seat hcalls hpool hticket hseat hheld hbag =>
      simp only [hcalls, hactive, hpool, hticket, hseat, hheld, List.getElem?_cons_zero]
      let taken := (calls.setPool pool').setBag seat []
      have hjob : { call.job with bag := taken.bags.read seat } = call.job := by
        simp only [taken, setBag, setPool, Bags.read_write_self]
        rw [← hbag]
      have htaken : taken.calls = [call] := hcalls
      exact serving_pollSeated htaken rfl hticket hjob world
  | @seated call pool ticket seat hcalls hpool hticket hseat =>
      have hactive' : call.job.isOver = false := hactive
      simp only [hcalls, hactive', hpool, hticket, hseat, List.getElem?_cons_zero]
      exact serving_pollSeated hcalls hpool hticket rfl world

theorem Serving.pollUntilOver {calls : Calls} {job : Job Evaluation} (hserving : Serving calls job)
    (hactive : job.isOver = false) (world : World) (polls : Nat) :
    (calls.pollUntilOver 0 world polls).1 = (job.pollUntilOver world polls).1 ∧
      (calls.pollUntilOver 0 world polls).2.2 = (job.pollUntilOver world polls).2.2 := by
  induction polls generalizing calls job world with
  | zero => exact ⟨rfl, rfl⟩
  | succ polls ih =>
      obtain ⟨calls', hcalls, hlater⟩ := hserving.poll hactive world
      unfold Calls.pollUntilOver Job.pollUntilOver
      rw [hcalls]
      rcases hpoll : job.poll world with ⟨answer, job', world'⟩
      rw [hpoll] at hlater
      cases answer with
      | pending => exact ih (hlater rfl) (Job.isOver_of_poll_pending hpoll) world'
      | finished result => exact ⟨rfl, rfl⟩
      | _ => exact ⟨rfl, rfl⟩

end Calls

/-- A call made alone answers as its job does, and leaves the same world behind. -/
theorem Program.callAlone_eq (program : Program) (top : Bool) (max : Option Nat) (data : Json)
    (world : World) (polls : Nat) :
    (program.callAlone top max data world polls).1 =
        ((Job.new (program.call data) false).pollUntilOver world polls).1 ∧
      (program.callAlone top max data world polls).2.2 =
        ((Job.new (program.call data) false).pollUntilOver world polls).2.2 :=
  (Calls.serving_start program top max data).pollUntilOver rfl world polls

end DecisionLogic
