import DecisionLogic.Proofs.Pool.Claims

/-!
# The bound of a pool

Only a claim that finds nothing free is held to the bound of its pool; a claim that takes a free
instance is not.  So no more instances are ever out than the bound allows or the pool started with,
whichever is more, and a pool that starts with more than its bound can have all of them out.
-/

namespace DecisionLogic

variable {α : Type} {initial : List α} {bound : Nat}

namespace Pool

/-- The instances that entered the pool, and the bound that it holds new ones to, are within
`bound`. -/
structure Within (initial : List α) (bound : Nat) (pool : Pool α) : Prop where
  accounts : Accounts initial [] pool
  max : pool.max ≤ bound
  entered : initial.length + pool.created ≤ bound

theorem Within.checkedOut_le {pool : Pool α} (hwithin : pool.Within initial bound) :
    pool.checkedOut ≤ bound := by
  have htotal := hwithin.accounts.length_entered
  have hentered := hwithin.entered
  omega

theorem Within.step {traffic : Traffic α} (hwithin : traffic.pool.Within initial bound)
    (event : PoolEvent) : (traffic.step event).pool.Within initial bound := by
  refine ⟨hwithin.accounts.step event, ?_, ?_⟩
  · have hterms := congrArg Prod.fst (traffic.terms_step event)
    exact hterms.trans_le hwithin.max
  · cases event with
    | enter => exact hwithin.entered
    | poll ticket => exact hwithin.accounts.created_poll_le hwithin.max hwithin.entered ticket _
    | fire ticket => exact hwithin.entered
    | drop ticket =>
        change initial.length + (traffic.pool.drop ticket).created ≤ bound
        rw [created_drop]
        exact hwithin.entered

theorem within_run (max : Nat) (create : Nat → α) (events : List PoolEvent)
    (hmax : Nat.max max 1 ≤ bound) (hinitial : initial.length ≤ bound) :
    ((Traffic.new max initial create).run events).pool.Within initial bound := by
  apply Traffic.run_induction (Within initial bound)
  · intro traffic event hwithin
    exact hwithin.step event
  · exact ⟨accounts_new max initial create, hmax, hinitial⟩

end Pool

namespace Traffic

/-- Claims that are made and polled one after the other, and keep what they get. -/
def rush : Nat → List PoolEvent
  | 0 => []
  | count + 1 => rush count ++ [.enter, .poll count]

/-- Each of the claims so far holds an instance that was free from the start. -/
structure Rushed (initial : List α) (count : Nat) (traffic : Traffic α) : Prop where
  fired : traffic.fired = []
  claims : traffic.pool.claims.length = count
  free : traffic.pool.free.length + count = initial.length
  checkedOut : traffic.pool.checkedOut = count

/-- One more claim takes a free instance, whatever the bound. -/
theorem Rushed.next {count : Nat} {traffic : Traffic α} (hrushed : traffic.Rushed initial count)
    (hlt : count < initial.length) : (traffic.run [.enter, .poll count]).Rushed initial (count + 1) := by
  have hclaim : traffic.pool.enter.2.claim count = .unpolled := by
    rw [← hrushed.claims]
    exact Pool.claim_enter_last
  have hpolled : (traffic.run [.enter, .poll count]).pool = traffic.pool.enter.2.acquire count := by
    simp [run, step, Pool.poll, hclaim, hrushed.fired]
  have hfree := hrushed.free
  obtain ⟨item, rest, hitems⟩ : ∃ item rest, traffic.pool.enter.2.free = item :: rest := by
    apply List.exists_cons_of_length_pos
    change 0 < traffic.pool.free.length
    omega
  have hlength : traffic.pool.free.length = rest.length + 1 := congrArg List.length hitems
  have hcount := hrushed.checkedOut
  refine ⟨hrushed.fired, ?_, ?_, ?_⟩
  · rw [hpolled, Pool.length_acquire, Pool.length_enter, hrushed.claims]
  · rw [hpolled, Pool.acquire, hitems]
    change rest.length + (count + 1) = initial.length
    omega
  · rw [hpolled, Pool.acquire, hitems]
    change traffic.pool.checkedOut + 1 = count + 1
    omega

theorem rushed_run (max : Nat) (create : Nat → α) {count : Nat} (hle : count ≤ initial.length) :
    ((new max initial create).run (rush count)).Rushed initial count := by
  induction count with
  | zero =>
      refine ⟨rfl, rfl, ?_, rfl⟩
      change initial.reverse.length + 0 = initial.length
      simp
  | succ count ih =>
      have hbefore := ih (Nat.le_of_succ_le hle)
      have hrun : (new max initial create).run (rush (count + 1)) =
          ((new max initial create).run (rush count)).run [.enter, .poll count] := by
        simp only [run, rush, List.foldl_append]
      rw [hrun]
      exact hbefore.next hle

end Traffic

namespace Pool

/-- Whatever happens to a pool, no more instances are out than its bound allows or than it started
with; and the bound by itself holds in all reachable states exactly for the pools that do not start
with more instances than it allows. -/
theorem run_bounded_iff (max : Nat) (initial : List α) (create : Nat → α) :
    (∀ events, let pool := ((Traffic.new max initial create).run events).pool
      pool.checkedOut ≤ Nat.max pool.max initial.length) ∧
    ((∀ events, let pool := ((Traffic.new max initial create).run events).pool
        pool.checkedOut ≤ pool.max) ↔
      initial.length ≤ (Pool.new max initial create).max) := by
  have hmax (events : List PoolEvent) :
      ((Traffic.new max initial create).run events).pool.max = (Pool.new max initial create).max :=
    congrArg Prod.fst ((Traffic.new max initial create).terms_run events)
  refine ⟨fun events => ?_, fun hbounded => ?_, fun hinitial events => ?_⟩
  · dsimp only
    rw [hmax]
    exact (within_run max create events (Nat.le_max_left _ _) (Nat.le_max_right _ _)).checkedOut_le
  · have hrushed := Traffic.rushed_run max create (Nat.le_refl initial.length)
    have hall := hbounded (Traffic.rush initial.length)
    dsimp only at hall
    rw [hmax, hrushed.checkedOut] at hall
    exact hall
  · dsimp only
    rw [hmax]
    exact (within_run max create events (Nat.le_refl _) hinitial).checkedOut_le

/-- A pool that admits one caller and starts with two instances gives out both. -/
theorem run_exceeds_max :
    ¬ ∀ (max : Nat) (initial : List Nat) (create : Nat → Nat) (events : List PoolEvent),
      let pool := ((Traffic.new max initial create).run events).pool
      pool.checkedOut ≤ pool.max := by
  intro hbounded
  have htwo := hbounded 1 [7, 8] id [.enter, .poll 0, .enter, .poll 1]
  exact absurd htwo (by decide)

end Pool
end DecisionLogic
