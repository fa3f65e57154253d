import DecisionLogic.Proofs.Pool.Claims

/-!
# How claims end

A claim ends when it is dropped, or when a poll finds its token fired before it holds an instance,
and in no other way; it does not come back.  So once each claim that was made has ended, nothing is
out any more, and everything that ever entered the pool is free.
-/

open scoped List

namespace DecisionLogic

namespace Pool

variable {α : Type} {pool : Pool α} {ticket : Nat} {item : α}

/-! ## One poll -/

/-- A poll that does not find the token fired leaves the claim alive. -/
theorem claim_poll_ne_gone (hnotGone : pool.claim ticket ≠ .gone) :
    (pool.poll ticket false).2.claim ticket ≠ .gone := by
  have hpolled := polled_poll hnotGone false
  have hanswer := pool.cancelled_of_poll ticket false
  generalize pool.poll ticket false = outcome at hpolled hanswer
  cases hpolled with
  | held hclaim => simp [hclaim]
  | waiting hlive hunheld => exact hlive
  | cancelled hclaim => exact absurd (hanswer rfl) Bool.false_ne_true

theorem poll_of_held (hheld : pool.claim ticket = .held item)
    (cancelled : Bool) : pool.poll ticket cancelled = (.held item, pool) := by
  unfold poll
  rw [hheld]

theorem poll_of_gone (hgone : pool.claim ticket = .gone) (cancelled : Bool) :
    pool.poll ticket cancelled = (.gone, pool) := by
  unfold poll
  rw [hgone]

theorem poll_of_fired (hnotGone : pool.claim ticket ≠ .gone)
    (hunheld : (pool.claim ticket).guarded? = none) :
    pool.poll ticket true = (.cancelled, pool.drop ticket) := by
  unfold poll
  cases hclaim : pool.claim ticket with
  | held item =>
      rw [hclaim] at hunheld
      cases hunheld
  | gone => exact absurd hclaim hnotGone
  | unpolled => rfl
  | queued => rfl
  | offered item => rfl

end Pool

namespace Traffic

variable {α : Type} {traffic : Traffic α} {ticket : Nat} {event : PoolEvent}

/-- The answer to the next poll of a claim. -/
def answer (traffic : Traffic α) (ticket : Nat) : ClaimAnswer α :=
  (traffic.pool.poll ticket (ticket ∈ traffic.fired)).1

/-- The event ends the claim. -/
inductive Ends (traffic : Traffic α) (ticket : Nat) : PoolEvent → Prop
  | drop : Ends traffic ticket (.drop ticket)
  | cancelled (hfired : ticket ∈ traffic.fired)
      (hunheld : (traffic.pool.claim ticket).guarded? = none) :
      Ends traffic ticket (.poll ticket)

theorem pool_step_poll (traffic : Traffic α) (ticket : Nat) :
    (traffic.step (.poll ticket)).pool =
      (traffic.pool.poll ticket (ticket ∈ traffic.fired)).2 := rfl

/-! ## One event -/

/-- A claim is not affected by the events of another one, as far as it holds an instance or has
ended. -/
theorem sameHold_step (hlt : ticket < traffic.pool.claims.length)
    (hdrop : event ≠ .drop ticket) (hpoll : event ≠ .poll ticket) :
    ((traffic.step event).pool.claim ticket).SameHold (traffic.pool.claim ticket) := by
  cases event with
  | enter =>
      change (traffic.pool.enter.2.claim ticket).SameHold _
      rw [Pool.claim_enter_of_lt hlt]
      exact .refl _
  | poll other => exact Pool.sameHold_poll _ _ fun heq => hpoll (by rw [heq])
  | fire other => exact .refl _
  | drop other => exact Pool.sameHold_drop _ fun heq => hdrop (by rw [heq])

theorem gone_of_ends (hends : traffic.Ends ticket event) :
    (traffic.step event).pool.claim ticket = .gone := by
  cases hends with
  | drop => exact traffic.pool.claim_drop_self ticket
  | cancelled hfired hunheld =>
      rw [pool_step_poll, decide_eq_true hfired]
      by_cases hgone : traffic.pool.claim ticket = .gone
      · rw [Pool.poll_of_gone hgone]
        exact hgone
      · rw [Pool.poll_of_fired hgone hunheld]
        exact traffic.pool.claim_drop_self ticket

theorem ends_of_gone (hnotGone : traffic.pool.claim ticket ≠ .gone)
    (hgone : (traffic.step event).pool.claim ticket = .gone) : traffic.Ends ticket event := by
  by_cases hdrop : event = .drop ticket
  · rw [hdrop]
    exact .drop
  · by_cases hpoll : event = .poll ticket
    · subst hpoll
      have hfired : ticket ∈ traffic.fired := by
        by_contra hunfired
        rw [pool_step_poll, decide_eq_false hunfired] at hgone
        exact Pool.claim_poll_ne_gone hnotGone hgone
      refine .cancelled hfired ?_
      cases hclaim : traffic.pool.claim ticket with
      | held item =>
          rw [pool_step_poll, Pool.poll_of_held hclaim, hclaim] at hgone
          cases hgone
      | unpolled | queued | offered | gone => rfl
    · have hsame := sameHold_step (Pool.lt_length_of_claim hnotGone) hdrop hpoll
      exact absurd (hsame.gone.mp hgone) hnotGone

theorem stays_gone (hlt : ticket < traffic.pool.claims.length)
    (hgone : traffic.pool.claim ticket = .gone) (event : PoolEvent) :
    (traffic.step event).pool.claim ticket = .gone := by
  by_cases hdrop : event = .drop ticket
  · rw [hdrop]
    exact traffic.pool.claim_drop_self ticket
  · by_cases hpoll : event = .poll ticket
    · rw [hpoll, pool_step_poll, Pool.poll_of_gone hgone]
      exact hgone
    · exact (sameHold_step hlt hdrop hpoll).gone.mpr hgone

theorem stays_held {item : α} (hheld : traffic.pool.claim ticket = .held item)
    (hdrop : event ≠ .drop ticket) : (traffic.step event).pool.claim ticket = .held item := by
  by_cases hpoll : event = .poll ticket
  · rw [hpoll, pool_step_poll, Pool.poll_of_held hheld]
    exact hheld
  · have hlt : ticket < traffic.pool.claims.length := Pool.lt_length_of_claim (by simp [hheld])
    apply Claim.eq_held_of_guarded
    rw [(sameHold_step hlt hdrop hpoll).guarded, hheld]
    rfl

/-- What the events of a claim do to it, and what its polls are answered. -/
structure ClaimLaws (traffic : Traffic α) : Prop where
  /-- A claim ends by a drop or by a poll that finds its token fired, and in no other way. -/
  gone_iff : ∀ ticket event, traffic.pool.claim ticket ≠ .gone →
    ((traffic.step event).pool.claim ticket = .gone ↔ traffic.Ends ticket event)
  /-- A claim that was made and has ended does not come back. -/
  stays_gone : ∀ ticket event, ticket < traffic.pool.claims.length →
    traffic.pool.claim ticket = .gone → (traffic.step event).pool.claim ticket = .gone
  /-- A guard keeps its instance until it is dropped. -/
  stays_held : ∀ ticket item event, traffic.pool.claim ticket = .held item →
    event ≠ .drop ticket → (traffic.step event).pool.claim ticket = .held item
  /-- The poll that ends a claim says that it was cancelled. -/
  cancelled : ∀ ticket, traffic.pool.claim ticket ≠ .gone → traffic.Ends ticket (.poll ticket) →
    traffic.answer ticket = .cancelled
  /-- The first poll of a claim gives it an instance or makes it wait. -/
  arrived : ∀ ticket, ticket ∉ traffic.fired → traffic.pool.claim ticket = .unpolled →
    (∃ item, traffic.answer ticket = .held item ∧
      (traffic.step (.poll ticket)).pool.claim ticket = .held item) ∨
    traffic.answer ticket = .waiting ∧ (traffic.step (.poll ticket)).pool.claim ticket = .queued
  /-- A claim that waits goes on waiting. -/
  waiting : ∀ ticket, ticket ∉ traffic.fired → traffic.pool.claim ticket = .queued →
    traffic.answer ticket = .waiting ∧ (traffic.step (.poll ticket)).pool.claim ticket = .queued
  /-- A claim that was sent an instance receives it. -/
  received : ∀ ticket item, ticket ∉ traffic.fired → traffic.pool.claim ticket = .offered item →
    traffic.answer ticket = .held item ∧
      (traffic.step (.poll ticket)).pool.claim ticket = .held item

theorem claimLaws (traffic : Traffic α) : traffic.ClaimLaws where
  gone_iff _ _ hnotGone := ⟨ends_of_gone hnotGone, gone_of_ends⟩
  stays_gone _ event hlt hgone := stays_gone hlt hgone event
  stays_held _ _ _ hheld hdrop := stays_held hheld hdrop
  cancelled ticket hnotGone hends := by
    cases hends with
    | cancelled hfired hunheld =>
        unfold answer
        rw [decide_eq_true hfired, Pool.poll_of_fired hnotGone hunheld]
  arrived ticket hunfired hunpolled := by
    have hnotGone : traffic.pool.claim ticket ≠ .gone := by simp [hunpolled]
    have hacquired := (Pool.claim_acquire hnotGone).1
    unfold answer
    rw [pool_step_poll, decide_eq_false hunfired, Pool.poll, hunpolled]
    rcases hacquired with ⟨item, hheld⟩ | hqueued
    · exact .inl ⟨item, by simp [Pool.answer, hheld], hheld⟩
    · exact .inr ⟨by simp [Pool.answer, hqueued], hqueued⟩
  waiting ticket hunfired hqueued := by
    unfold answer
    rw [pool_step_poll, decide_eq_false hunfired, Pool.poll, hqueued]
    exact ⟨rfl, hqueued⟩
  received ticket item hunfired hoffered := by
    unfold answer
    rw [pool_step_poll, decide_eq_false hunfired, Pool.poll, hoffered]
    exact ⟨rfl, Pool.claim_setClaim_self (by simp [hoffered]) _⟩

/-! ## Many events -/

theorem length_step (traffic : Traffic α) (event : PoolEvent) :
    traffic.pool.claims.length ≤ (traffic.step event).pool.claims.length := by
  cases event with
  | enter => exact Pool.length_enter.symm ▸ Nat.le_succ _
  | poll ticket => exact (Pool.length_poll _ _ _).ge
  | fire ticket => exact Nat.le_refl _
  | drop ticket => exact (Pool.length_drop _ _).ge

theorem stays_gone_run (hlt : ticket < traffic.pool.claims.length)
    (hgone : traffic.pool.claim ticket = .gone) (events : List PoolEvent) :
    (traffic.run events).pool.claim ticket = .gone := by
  induction events generalizing traffic with
  | nil => exact hgone
  | cons event events ih =>
      exact ih (hlt.trans_le (traffic.length_step event)) (stays_gone hlt hgone event)

/-- One of the events ends the claim, which was made before. -/
def EndedBy (traffic : Traffic α) (events : List PoolEvent) (ticket : Nat) : Prop :=
  ∃ before event after, events = before ++ event :: after ∧
    ticket < (traffic.run before).pool.claims.length ∧ (traffic.run before).Ends ticket event

theorem gone_of_endedBy {events : List PoolEvent} (hended : traffic.EndedBy events ticket) :
    (traffic.run events).pool.claim ticket = .gone := by
  obtain ⟨before, event, after, rfl, hlt, hends⟩ := hended
  have hrun : traffic.run (before ++ event :: after) =
      ((traffic.run before).step event).run after := by
    simp [run, List.foldl_append]
  rw [hrun]
  exact stays_gone_run (hlt.trans_le (length_step _ _)) (gone_of_ends hends) after

end Traffic

namespace Pool

variable {α : Type}

theorem forall_gone_of_endedBy {traffic : Traffic α} {events : List PoolEvent}
    (hended : ∀ ticket < (traffic.run events).pool.claims.length,
      traffic.EndedBy events ticket) :
    ∀ claim ∈ (traffic.run events).pool.claims, claim = .gone := by
  intro claim hmem
  obtain ⟨ticket, hlt, rfl⟩ := List.mem_iff_getElem.mp hmem
  have hgone := Traffic.gone_of_endedBy (hended ticket hlt)
  simpa [Pool.claim, List.getD_eq_getElem?_getD, hlt] using hgone

/-- Whatever happens to a pool, each instance that entered it is either free, or behind one live
guard, or handed off to one claim that did not receive it yet, and the counter of instances that
are out is exact.  It is positive whenever a claim is about to give an instance back.  A claim is
gone as soon as it is dropped or cancelled, and not before; and when all claims that were made are
gone, or have been dropped or cancelled at any time, everything is free again. -/
theorem run_conserves_instances (max : Nat) {initial : List α} {create : Nat → α}
    (events : List PoolEvent) (hinitial : initial.Nodup) (hcreate : Function.Injective create)
    (hfresh : ∀ n, create n ∉ initial) :
    let pool := ((Traffic.new max initial create).run events).pool
    (pool.free ++ pool.guards ++ pool.handOffs).Nodup ∧
      pool.free ++ pool.guards ++ pool.handOffs ~
        initial ++ (List.range pool.created).map create ∧
      pool.checkedOut = pool.guards.length + pool.handOffs.length ∧
      (∀ ticket item, pool.claim ticket = .held item ∨ pool.claim ticket = .offered item →
        0 < pool.checkedOut) ∧
      ((∀ claim ∈ pool.claims, claim = .gone) →
        pool.checkedOut = 0 ∧ pool.free ~ initial ++ (List.range pool.created).map create) ∧
      ((Traffic.new max initial create).run events).ClaimLaws ∧
      ((∀ ticket < pool.claims.length, (Traffic.new max initial create).EndedBy events ticket) →
        pool.checkedOut = 0 ∧ pool.free ~ initial ++ (List.range pool.created).map create) := by
  intro pool
  have haccounts : Accounts initial [] pool := accounts_run max initial create events
  have hmaker : pool.create = create := by
    have hterms := (Traffic.new max initial create).terms_run events
    exact congrArg Prod.snd hterms
  have hentered : pool.entered initial = initial ++ (List.range pool.created).map create := by
    rw [entered, hmaker]
  have hplaces : pool.free ++ pool.guards ++ pool.handOffs ~
      initial ++ (List.range pool.created).map create := by
    calc
      pool.free ++ pool.guards ++ pool.handOffs ~ pool.free ++ (pool.guards ++ pool.handOffs) :=
        .of_eq (List.append_assoc ..)
      _ ~ pool.free ++ pool.out := pool.out_perm.symm.append_left pool.free
      _ ~ pool.entered initial := haccounts.places
      _ ~ initial ++ (List.range pool.created).map create := .of_eq hentered
  have hcount : pool.checkedOut = pool.guards.length + pool.handOffs.length := by
    have hlength := pool.out_perm.length_eq
    rw [List.length_append] at hlength
    rw [haccounts.count, hlength, List.length_nil, Nat.zero_add]
  have hreturned (hgone : ∀ claim ∈ pool.claims, claim = .gone) :
      pool.checkedOut = 0 ∧ pool.free ~ initial ++ (List.range pool.created).map create := by
    have hnone : pool.out = [] := by
      rw [out, List.filterMap_eq_nil_iff]
      intro claim hclaim
      rw [hgone claim hclaim]
      rfl
    constructor
    · rw [haccounts.count, hnone]
      rfl
    · have hfree := haccounts.places
      rw [hnone, List.append_nil, List.nil_append, hentered] at hfree
      exact hfree
  refine ⟨?_, hplaces, hcount, ?_, hreturned, Traffic.claimLaws _, fun hended => ?_⟩
  · exact hplaces.nodup_iff.mpr (nodup_entered hinitial hcreate hfresh pool.created)
  · intro ticket item hclaim
    have hitem : (pool.claim ticket).item? = some item := by
      rcases hclaim with hheld | hoffered
      · rw [hheld]
        rfl
      · rw [hoffered]
        rfl
    have hout : 0 < pool.out.length := length_out_pos_of_item hitem
    have htotal := haccounts.count
    omega
  · exact hreturned (forall_gone_of_endedBy hended)

/-- The only instance is on its way from a dropped guard to a claim that has not received it; when
that claim is dropped too, it is free again. -/
theorem run_conserves_instances_handOff :
    let events : List PoolEvent := [.enter, .poll 0, .enter, .poll 1, .fire 0, .drop 0]
    let pool := ((Traffic.new 1 [7] (· + 8)).run events).pool
    let later := ((Traffic.new 1 [7] (· + 8)).run (events ++ [.drop 1])).pool
    ([7].Nodup ∧ Function.Injective (· + 8) ∧ ∀ n, n + 8 ∉ [7]) ∧
      pool.handOffs = [7] ∧ pool.claim 1 = .offered 7 ∧
      (pool.free ++ pool.guards ++ pool.handOffs).Nodup ∧
      pool.checkedOut = pool.guards.length + pool.handOffs.length ∧
      later.checkedOut = 0 ∧ later.free ~ [7] := by
  intro events pool later
  have hinitial : [7].Nodup := by decide
  have hcreate : Function.Injective (· + 8) := fun m n (h : m + 8 = n + 8) => by omega
  have hfresh : ∀ n, n + 8 ∉ [7] := by
    intro n
    simp only [List.mem_singleton]
    omega
  have hstate := run_conserves_instances 1 events hinitial hcreate hfresh
  have hlater := run_conserves_instances 1 (events ++ [.drop 1]) hinitial hcreate hfresh
  have hended : ∀ ticket < 2,
      (Traffic.new 1 [7] (· + 8)).EndedBy (events ++ [.drop 1]) ticket := by
    intro ticket hlt
    obtain rfl | rfl : ticket = 0 ∨ ticket = 1 := by omega
    · exact ⟨[.enter, .poll 0, .enter, .poll 1, .fire 0], .drop 0, [.drop 1], rfl, by decide, .drop⟩
    · exact ⟨events, .drop 1, [], rfl, by decide, .drop⟩
  exact ⟨⟨hinitial, hcreate, hfresh⟩, rfl, rfl, hstate.1, hstate.2.2.1,
    hlater.2.2.2.2.2.2 hended⟩

end Pool
end DecisionLogic
