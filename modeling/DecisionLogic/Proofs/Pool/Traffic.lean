import DecisionLogic.Pool

/-!
# Traffic at a pool

A pool together with the tokens of its claims, and everything that may happen to them: a claim is
made, it is polled for the first time or again, its token fires, it is dropped.  A claim that was
made without a token is one whose token never fires.
-/

namespace DecisionLogic

inductive PoolEvent where
  | enter
  | poll (ticket : Nat)
  | fire (ticket : Nat)
  /-- The claim is given up, or the guard of the instance that it holds is dropped. -/
  | drop (ticket : Nat)
deriving DecidableEq

structure Traffic (α : Type) where
  pool : Pool α
  /-- The claims whose token has fired. -/
  fired : List Nat

namespace Traffic

variable {α : Type}

def new (max : Nat) (initial : List α) (create : Nat → α) : Traffic α :=
  ⟨.new max initial create, []⟩

def step (traffic : Traffic α) : PoolEvent → Traffic α
  | .enter => { traffic with pool := traffic.pool.enter.2 }
  | .poll ticket =>
      { traffic with pool := (traffic.pool.poll ticket (ticket ∈ traffic.fired)).2 }
  | .fire ticket => { traffic with fired := ticket :: traffic.fired }
  | .drop ticket => { traffic with pool := traffic.pool.drop ticket }

def run (traffic : Traffic α) (events : List PoolEvent) : Traffic α :=
  events.foldl step traffic

/-! ## What stays fixed -/

end Traffic

namespace Pool

variable {α : Type}

def terms (pool : Pool α) : Nat × (Nat → α) :=
  (pool.max, pool.create)

theorem terms_handOver (pool : Pool α) (item : α) (queue : List Nat) :
    (pool.handOver item queue).terms = pool.terms := by
  induction queue with
  | nil => rfl
  | cons ticket rest ih =>
      unfold handOver
      split
      · rfl
      · exact ih

theorem terms_drop (pool : Pool α) (ticket : Nat) : (pool.drop ticket).terms = pool.terms := by
  unfold drop
  split
  · rfl
  · rfl
  · exact terms_handOver _ _ _
  · exact terms_handOver _ _ _
  · rfl

theorem terms_acquire (pool : Pool α) (ticket : Nat) :
    (pool.acquire ticket).terms = pool.terms := by
  unfold acquire
  split
  · rfl
  · split
    · rfl
    · rfl

theorem terms_poll (pool : Pool α) (ticket : Nat) (cancelled : Bool) :
    (pool.poll ticket cancelled).2.terms = pool.terms := by
  have hdrop := terms_drop pool ticket
  unfold poll
  cases pool.claim ticket with
  | held item => rfl
  | gone => rfl
  | unpolled =>
      cases cancelled with
      | true => exact hdrop
      | false => exact terms_acquire pool ticket
  | queued =>
      cases cancelled with
      | true => exact hdrop
      | false => rfl
  | offered item =>
      cases cancelled with
      | true => exact hdrop
      | false => rfl

end Pool

namespace Traffic

variable {α : Type}

theorem terms_step (traffic : Traffic α) (event : PoolEvent) :
    (traffic.step event).pool.terms = traffic.pool.terms := by
  cases event with
  | enter => rfl
  | poll ticket => exact traffic.pool.terms_poll ticket _
  | fire ticket => rfl
  | drop ticket => exact traffic.pool.terms_drop ticket

/-! ## Runs -/

/-- What every single event preserves holds after all of them. -/
theorem run_induction (holds : Pool α → Prop)
    (hstep : ∀ (traffic : Traffic α) (event : PoolEvent),
      holds traffic.pool → holds (traffic.step event).pool)
    {traffic : Traffic α} (hstart : holds traffic.pool) (events : List PoolEvent) :
    holds (traffic.run events).pool := by
  induction events generalizing traffic with
  | nil => exact hstart
  | cons event events ih => exact ih (hstep traffic event hstart)

theorem terms_run (traffic : Traffic α) (events : List PoolEvent) :
    (traffic.run events).pool.terms = traffic.pool.terms := by
  apply run_induction (fun pool => pool.terms = traffic.pool.terms) _ rfl
  intro later event hlater
  rw [terms_step, hlater]

end Traffic
end DecisionLogic
