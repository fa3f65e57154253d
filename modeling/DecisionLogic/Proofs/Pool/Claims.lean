import DecisionLogic.Proofs.Pool.Conservation

/-!
# What a pool does to its claims

A poll or a drop of one claim may send an instance to another one, but it never changes which
instance another claim holds, and it ends no other claim.  Two claims never hold one instance, and
no more than the bound of the pool are out when it starts within it.
-/

open scoped List

namespace DecisionLogic

/-- The claims hold the same and have both ended or both not. -/
structure Claim.SameHold {α : Type} (claim claim' : Claim α) : Prop where
  guarded : claim.guarded? = claim'.guarded?
  gone : claim = .gone ↔ claim' = .gone

theorem Claim.SameHold.refl {α : Type} (claim : Claim α) : claim.SameHold claim :=
  ⟨rfl, Iff.rfl⟩

theorem Claim.SameHold.trans {α : Type} {a b c : Claim α} (hab : a.SameHold b)
    (hbc : b.SameHold c) : a.SameHold c :=
  ⟨hab.guarded.trans hbc.guarded, hab.gone.trans hbc.gone⟩

theorem Claim.eq_held_of_guarded {α : Type} {claim : Claim α} {item : α}
    (hguarded : claim.guarded? = some item) : claim = .held item := by
  cases claim with
  | held other => rw [Option.some.inj hguarded]
  | _ => cases hguarded

namespace Pool

variable {α : Type} {pool : Pool α} {ticket other : Nat} {item : α}

/-! ## Claims one by one -/

theorem claim_setClaim_self (hnotGone : pool.claim ticket ≠ .gone) (new : Claim α) :
    (pool.setClaim ticket new).claim ticket = new := by
  have hlt := lt_length_of_claim hnotGone
  simp [claim, setClaim, List.getD_eq_getElem?_getD, hlt]

theorem claim_setClaim_of_ne (hne : other ≠ ticket) (new : Claim α) :
    (pool.setClaim ticket new).claim other = pool.claim other := by
  simp [claim, setClaim, List.getD_eq_getElem?_getD, List.getElem?_set_ne (Ne.symm hne)]

theorem length_setClaim (new : Claim α) :
    (pool.setClaim ticket new).claims.length = pool.claims.length := by
  simp [setClaim]

theorem claim_enter_of_lt (hlt : other < pool.claims.length) :
    pool.enter.2.claim other = pool.claim other := by
  simp [enter, claim, List.getD_eq_getElem?_getD, List.getElem?_append_left hlt]

theorem claim_enter_last : pool.enter.2.claim pool.claims.length = .unpolled := by
  simp [enter, claim, List.getD_eq_getElem?_getD]

theorem length_enter : pool.enter.2.claims.length = pool.claims.length + 1 := by
  simp [enter]

/-! ## Giving an instance back -/

theorem length_handOver (queue : List Nat) :
    (pool.handOver item queue).claims.length = pool.claims.length := by
  induction queue with
  | nil => rfl
  | cons first rest ih =>
      unfold handOver
      split
      · exact length_setClaim _
      · exact ih

theorem sameHold_handOver (queue : List Nat) (ticket : Nat) :
    ((pool.handOver item queue).claim ticket).SameHold (pool.claim ticket) := by
  induction queue with
  | nil => exact .refl _
  | cons first rest ih =>
      unfold handOver
      split
      next hqueued =>
        by_cases heq : ticket = first
        · subst heq
          have hclaim : pool.claim ticket = .queued := by
            cases hclaim : pool.claim ticket with
            | queued => rfl
            | _ => simp [hclaim, Claim.isQueued] at hqueued
          have hnotGone : ({ pool with queue := rest } : Pool α).claim ticket ≠ .gone := by
            change pool.claim ticket ≠ .gone
            simp [hclaim]
          rw [claim_setClaim_self hnotGone, hclaim]
          exact ⟨rfl, by simp⟩
        · rw [claim_setClaim_of_ne heq]
          exact .refl _
      next => exact ih

theorem length_drop (pool : Pool α) (ticket : Nat) :
    (pool.drop ticket).claims.length = pool.claims.length := by
  unfold drop
  split
  · exact length_setClaim _
  · exact length_setClaim _
  · exact (length_handOver _).trans (length_setClaim _)
  · exact (length_handOver _).trans (length_setClaim _)
  · rfl

theorem claim_drop_self (pool : Pool α) (ticket : Nat) : (pool.drop ticket).claim ticket = .gone := by
  unfold drop release
  cases hclaim : pool.claim ticket with
  | unpolled => exact claim_setClaim_self (by simp [hclaim]) _
  | queued => exact claim_setClaim_self (by simp [hclaim]) _
  | offered item =>
      rw [(sameHold_handOver _ ticket).gone]
      exact claim_setClaim_self (by simp [hclaim]) _
  | held item =>
      rw [(sameHold_handOver _ ticket).gone]
      exact claim_setClaim_self (by simp [hclaim]) _
  | gone => exact hclaim

theorem sameHold_drop (pool : Pool α) (hne : other ≠ ticket) :
    ((pool.drop ticket).claim other).SameHold (pool.claim other) := by
  have hset : ((pool.setClaim ticket .gone).claim other).SameHold (pool.claim other) := by
    rw [claim_setClaim_of_ne hne]
    exact .refl _
  unfold drop
  cases pool.claim ticket with
  | unpolled => exact hset
  | queued => exact hset
  | offered item => exact (sameHold_handOver _ other).trans hset
  | held item => exact (sameHold_handOver _ other).trans hset
  | gone => exact .refl _

/-! ## Polls -/

theorem length_acquire (pool : Pool α) (ticket : Nat) :
    (pool.acquire ticket).claims.length = pool.claims.length := by
  unfold acquire
  split
  · exact length_setClaim _
  · split
    · exact length_setClaim _
    · exact length_setClaim _

/-- The first poll of a claim leaves the others alone; the claim holds an instance or waits. -/
theorem claim_acquire (hnotGone : pool.claim ticket ≠ .gone) :
    ((∃ item, (pool.acquire ticket).claim ticket = .held item) ∨
        (pool.acquire ticket).claim ticket = .queued) ∧
      ∀ other, other ≠ ticket → (pool.acquire ticket).claim other = pool.claim other := by
  unfold acquire
  split
  next item rest hfree =>
    exact ⟨.inl ⟨item, claim_setClaim_self hnotGone _⟩, fun _ hne => claim_setClaim_of_ne hne _⟩
  next hfree =>
    split
    · exact ⟨.inl ⟨_, claim_setClaim_self hnotGone _⟩, fun _ hne => claim_setClaim_of_ne hne _⟩
    · exact ⟨.inr (claim_setClaim_self hnotGone _), fun _ hne => claim_setClaim_of_ne hne _⟩

theorem length_poll (pool : Pool α) (ticket : Nat) (cancelled : Bool) :
    (pool.poll ticket cancelled).2.claims.length = pool.claims.length := by
  have hdrop := length_drop pool ticket
  unfold poll
  cases pool.claim ticket with
  | held item => rfl
  | gone => rfl
  | unpolled =>
      cases cancelled with
      | true => exact hdrop
      | false => exact length_acquire pool ticket
  | queued =>
      cases cancelled with
      | true => exact hdrop
      | false => rfl
  | offered item =>
      cases cancelled with
      | true => exact hdrop
      | false => exact length_setClaim _

theorem sameHold_poll (pool : Pool α) (cancelled : Bool) (hne : other ≠ ticket) :
    ((pool.poll ticket cancelled).2.claim other).SameHold (pool.claim other) := by
  have hdrop := sameHold_drop pool hne
  unfold poll
  cases hclaim : pool.claim ticket with
  | held item => exact .refl _
  | gone => exact .refl _
  | unpolled =>
      cases cancelled with
      | true => exact hdrop
      | false =>
          have hnotGone : pool.claim ticket ≠ .gone := by simp [hclaim]
          change ((pool.acquire ticket).claim other).SameHold _
          rw [(claim_acquire hnotGone).2 other hne]
          exact .refl _
  | queued =>
      cases cancelled with
      | true => exact hdrop
      | false => exact .refl _
  | offered item =>
      cases cancelled with
      | true => exact hdrop
      | false =>
          change ((pool.setClaim ticket _).claim other).SameHold _
          rw [claim_setClaim_of_ne hne]
          exact .refl _

inductive Polled (ticket : Nat) : ClaimAnswer α × Pool α → Prop
  | held {item : α} {pool : Pool α} (hclaim : pool.claim ticket = .held item) :
      Polled ticket (.held item, pool)
  | waiting {pool : Pool α} (hnotGone : pool.claim ticket ≠ .gone)
      (hunheld : (pool.claim ticket).guarded? = none) : Polled ticket (.waiting, pool)
  | cancelled {pool : Pool α} (hclaim : pool.claim ticket = .gone) :
      Polled ticket (.cancelled, pool)

theorem polled_poll (hnotGone : pool.claim ticket ≠ .gone) (cancelled : Bool) :
    Polled ticket (pool.poll ticket cancelled) := by
  have hdropped : Polled ticket (ClaimAnswer.cancelled, pool.drop ticket) :=
    .cancelled (claim_drop_self pool ticket)
  unfold poll
  cases hclaim : pool.claim ticket with
  | held item => exact .held hclaim
  | gone => exact absurd hclaim hnotGone
  | unpolled =>
      cases cancelled with
      | true => exact hdropped
      | false =>
          rcases (claim_acquire hnotGone).1 with ⟨item, hacquired⟩ | hacquired
          · simp only [Bool.false_eq_true, if_false, answer, hacquired]
            exact .held hacquired
          · simp only [Bool.false_eq_true, if_false, answer, hacquired]
            exact .waiting (by simp [hacquired]) (by simp [hacquired, Claim.guarded?])
  | queued =>
      cases cancelled with
      | true => exact hdropped
      | false => exact .waiting (by simp [hclaim]) (by simp [hclaim, Claim.guarded?])
  | offered item =>
      cases cancelled with
      | true => exact hdropped
      | false => exact .held (claim_setClaim_self hnotGone _)

/-- Only a fired token ends a claim that is polled. -/
theorem cancelled_of_poll (pool : Pool α) (ticket : Nat) (cancelled : Bool)
    (hanswer : (pool.poll ticket cancelled).1 = .cancelled) : cancelled = true := by
  cases cancelled with
  | true => rfl
  | false =>
      unfold poll answer at hanswer
      cases hclaim : pool.claim ticket with
      | unpolled =>
          simp only [hclaim, Bool.false_eq_true, if_false] at hanswer
          split at hanswer <;> cases hanswer
      | _ => simp [hclaim] at hanswer

/-! ## Bounds -/

theorem Accounts.length_entered {initial : List α} (haccounts : Accounts initial [] pool) :
    initial.length + pool.created = pool.free.length + pool.checkedOut := by
  have hlength := haccounts.places.length_eq
  have hcount := haccounts.count
  simp only [entered, List.length_append, List.length_map, List.length_range,
    List.length_nil] at hlength hcount
  omega

theorem created_handOver (queue : List Nat) : (pool.handOver item queue).created = pool.created := by
  induction queue with
  | nil => rfl
  | cons first rest ih =>
      unfold handOver
      split
      · rfl
      · exact ih

theorem created_drop (pool : Pool α) (ticket : Nat) : (pool.drop ticket).created = pool.created := by
  unfold drop
  split
  · rfl
  · rfl
  · exact created_handOver _
  · exact created_handOver _
  · rfl

/-- A bound that is not below the one of the pool is kept for the instances that entered it. -/
theorem Accounts.created_poll_le {initial : List α} {bound : Nat}
    (haccounts : Accounts initial [] pool) (hmax : pool.max ≤ bound)
    (hbound : initial.length + pool.created ≤ bound) (ticket : Nat) (cancelled : Bool) :
    initial.length + (pool.poll ticket cancelled).2.created ≤ bound := by
  have hdrop := created_drop pool ticket
  have htotal := haccounts.length_entered
  unfold Pool.poll
  cases pool.claim ticket with
  | held item => exact hbound
  | gone => exact hbound
  | unpolled =>
      cases cancelled with
      | true =>
          simp only [if_true, hdrop]
          exact hbound
      | false =>
          simp only [Bool.false_eq_true, if_false]
          unfold Pool.acquire
          split
          · exact hbound
          next hfree =>
            rw [hfree, List.length_nil] at htotal
            split
            · change initial.length + (pool.created + 1) ≤ bound
              omega
            · exact hbound
  | queued =>
      cases cancelled with
      | true =>
          simp only [if_true, hdrop]
          exact hbound
      | false => exact hbound
  | offered item =>
      cases cancelled with
      | true =>
          simp only [if_true, hdrop]
          exact hbound
      | false => exact hbound

theorem Accounts.held_ne {initial : List α} (haccounts : Accounts initial [] pool)
    (hnodup : (pool.entered initial).Nodup) {x y : α} (hne : ticket ≠ other)
    (hticket : pool.claim ticket = .held x) (hother : pool.claim other = .held y) : x ≠ y := by
  have hout : pool.out.Nodup := by
    have hplaces := haccounts.places.nodup_iff.mpr hnodup
    exact (List.nodup_append.mp (List.nodup_append.mp hplaces).2.1).2.1
  have hget : ∀ {number : Nat} {z : α}, pool.claim number = .held z →
      pool.claims[number]? = some (.held z) := by
    intro number z hclaim
    rw [getElem?_claims (by simp [hclaim]), hclaim]
  have hpairs := List.pairwise_filterMap.mp hout
  rw [List.pairwise_iff_getElem] at hpairs
  obtain ⟨hltTicket, htakenTicket⟩ := List.getElem?_eq_some_iff.mp (hget hticket)
  obtain ⟨hltOther, htakenOther⟩ := List.getElem?_eq_some_iff.mp (hget hother)
  rcases Nat.lt_or_gt_of_ne hne with hlt | hgt
  · exact hpairs ticket other hltTicket hltOther hlt x (by rw [htakenTicket]; rfl) y
      (by rw [htakenOther]; rfl)
  · exact (hpairs other ticket hltOther hltTicket hgt y (by rw [htakenOther]; rfl) x
      (by rw [htakenTicket]; rfl)).symm

end Pool
end DecisionLogic
