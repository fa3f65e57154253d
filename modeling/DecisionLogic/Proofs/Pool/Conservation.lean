import DecisionLogic.Proofs.Pool.Traffic
import Mathlib.Data.List.Perm.Basic
import Mathlib.Data.List.Nodup
import Mathlib.Data.List.Range
import Mathlib.Tactic.Common

/-!
# No instance is lost or doubled

Every instance that entered a pool is free, or behind one guard, or on its way to one claim, and
the counter of the pool counts the last two.  The invariant `Pool.Accounts` also has a place for an
instance that is in hand: between the moment in which its claim ends and the moment in which it is
sent on or becomes free, it is in none of the others.
-/

open scoped List

namespace DecisionLogic

namespace Claim

variable {α : Type}

/-- The instance of a live guard. -/
def guarded? : Claim α → Option α
  | .held item => some item
  | _ => none

/-- The instance that was sent and not received yet. -/
def handedOff? : Claim α → Option α
  | .offered item => some item
  | _ => none

def item? : Claim α → Option α
  | .held item => some item
  | .offered item => some item
  | _ => none

theorem item?_eq_none_of_isQueued {claim : Claim α} (hqueued : claim.isQueued = true) :
    claim.item? = none := by
  cases claim with
  | queued => rfl
  | _ => simp [isQueued] at hqueued

end Claim

namespace Pool

variable {α : Type}

def guards (pool : Pool α) : List α :=
  pool.claims.filterMap Claim.guarded?

def handOffs (pool : Pool α) : List α :=
  pool.claims.filterMap Claim.handedOff?

def out (pool : Pool α) : List α :=
  pool.claims.filterMap Claim.item?

/-- The instances that entered a pool: those of its start and those that it made. -/
def entered (initial : List α) (pool : Pool α) : List α :=
  initial ++ (List.range pool.created).map pool.create

theorem out_perm (pool : Pool α) : pool.out ~ pool.guards ++ pool.handOffs := by
  unfold out guards handOffs
  induction pool.claims with
  | nil => exact .nil
  | cons claim claims ih =>
      cases claim with
      | held item => exact ih.cons item
      | offered item => exact (ih.cons item).trans List.perm_middle.symm
      | unpolled => exact ih
      | queued => exact ih
      | gone => exact ih

/-! ## The effect of a changed claim -/

theorem filterMap_item_set {claims : List (Claim α)} {ticket : Nat} {old : Claim α}
    (hold : claims[ticket]? = some old) (new : Claim α) :
    old.item?.toList ++ (claims.set ticket new).filterMap Claim.item? ~
      new.item?.toList ++ claims.filterMap Claim.item? := by
  induction claims generalizing ticket with
  | nil => simp at hold
  | cons claim claims ih =>
      cases ticket with
      | zero =>
          obtain rfl : claim = old := by simpa using hold
          simp only [List.set_cons_zero, List.filterMap_cons]
          cases hclaim : claim.item? with
          | none => cases hnew : new.item? <;> simp
          | some x =>
              cases hnew : new.item? with
              | none => simp
              | some y => simpa using List.Perm.swap y x _
      | succ ticket =>
          have hrest := ih (by simpa using hold)
          simp only [List.set_cons_succ, List.filterMap_cons]
          cases hclaim : claim.item? with
          | none => exact hrest
          | some x =>
              calc
                old.item?.toList ++ x :: (claims.set ticket new).filterMap Claim.item? ~
                    x :: (old.item?.toList ++ (claims.set ticket new).filterMap Claim.item?) :=
                  List.perm_middle
                _ ~ x :: (new.item?.toList ++ claims.filterMap Claim.item?) := hrest.cons x
                _ ~ new.item?.toList ++ x :: claims.filterMap Claim.item? :=
                  List.perm_middle.symm

theorem getElem?_claims {pool : Pool α} {ticket : Nat} (hnotGone : pool.claim ticket ≠ .gone) :
    pool.claims[ticket]? = some (pool.claim ticket) := by
  unfold claim at hnotGone ⊢
  cases hclaim : pool.claims[ticket]? with
  | none => simp [List.getD_eq_getElem?_getD, hclaim] at hnotGone
  | some claim => simp [List.getD_eq_getElem?_getD, hclaim]

theorem lt_length_of_claim {pool : Pool α} {ticket : Nat}
    (hnotGone : pool.claim ticket ≠ .gone) : ticket < pool.claims.length :=
  (List.getElem?_eq_some_iff.mp (getElem?_claims hnotGone)).1

theorem out_setClaim {pool : Pool α} {ticket : Nat} (hnotGone : pool.claim ticket ≠ .gone)
    (new : Claim α) :
    (pool.claim ticket).item?.toList ++ (pool.setClaim ticket new).out ~
      new.item?.toList ++ pool.out :=
  filterMap_item_set (getElem?_claims hnotGone) new

/-! ## The invariant -/

/-- The whereabouts of all instances of a pool that started with `initial`, while those of `inHand`
are in nobody's place. -/
structure Accounts (initial inHand : List α) (pool : Pool α) : Prop where
  places : inHand ++ (pool.free ++ pool.out) ~ pool.entered initial
  count : pool.checkedOut = inHand.length + pool.out.length

variable {initial : List α} {pool : Pool α} {item : α} {ticket : Nat} {new : Claim α}

theorem accounts_new (max : Nat) (initial : List α) (create : Nat → α) :
    Accounts initial [] (Pool.new max initial create) where
  places := by simp [Pool.new, out, entered]
  count := by simp [Pool.new, out]

theorem Accounts.enter (haccounts : Accounts initial [] pool) :
    Accounts initial [] pool.enter.2 := by
  have hout : pool.enter.2.out = pool.out := by
    simp [Pool.enter, out, List.filterMap_append, Claim.item?]
  constructor
  · rw [hout]
    exact haccounts.places
  · rw [hout]
    exact haccounts.count

theorem Accounts.give (haccounts : Accounts initial [item] pool)
    (hnotGone : pool.claim ticket ≠ .gone) (hold : (pool.claim ticket).item? = none)
    (hnew : new.item? = some item) :
    Accounts initial [] (pool.setClaim ticket new) := by
  have hout : (pool.setClaim ticket new).out ~ item :: pool.out := by
    simpa [hold, hnew] using out_setClaim hnotGone new
  constructor
  · calc
      [] ++ (pool.free ++ (pool.setClaim ticket new).out) ~ pool.free ++ item :: pool.out :=
        hout.append_left pool.free
      _ ~ [item] ++ (pool.free ++ pool.out) := List.perm_middle
      _ ~ pool.entered initial := haccounts.places
  · have hcount := haccounts.count
    have hlength := hout.length_eq
    simp only [List.length_cons, List.length_nil] at hcount hlength ⊢
    change pool.checkedOut = 0 + (pool.setClaim ticket new).out.length
    omega

theorem Accounts.take (haccounts : Accounts initial [] pool)
    (hold : (pool.claim ticket).item? = some item) :
    Accounts initial [item] (pool.setClaim ticket .gone) := by
  have hnotGone : pool.claim ticket ≠ .gone := by
    intro hgone
    simp [hgone, Claim.item?] at hold
  have hout : item :: (pool.setClaim ticket .gone).out ~ pool.out := by
    have hset := out_setClaim hnotGone .gone
    rw [hold] at hset
    exact hset
  constructor
  · have hmiddle : pool.free ++ item :: (pool.setClaim ticket .gone).out ~
        item :: (pool.free ++ (pool.setClaim ticket .gone).out) := List.perm_middle
    calc
      [item] ++ (pool.free ++ (pool.setClaim ticket .gone).out) ~
          pool.free ++ item :: (pool.setClaim ticket .gone).out := hmiddle.symm
      _ ~ pool.free ++ pool.out := hout.append_left pool.free
      _ ~ pool.entered initial := haccounts.places
  · have hcount := haccounts.count
    have hlength := hout.length_eq
    simp only [List.length_cons, List.length_nil] at hcount hlength ⊢
    change pool.checkedOut = 0 + 1 + (pool.setClaim ticket .gone).out.length
    omega

theorem Accounts.change (haccounts : Accounts initial [] pool)
    (hnotGone : pool.claim ticket ≠ .gone) (hsame : new.item? = (pool.claim ticket).item?) :
    Accounts initial [] (pool.setClaim ticket new) := by
  have hout : (pool.setClaim ticket new).out ~ pool.out := by
    have hset := out_setClaim hnotGone new
    rw [hsame] at hset
    exact (List.perm_append_left_iff _).mp hset
  constructor
  · exact (hout.append_left pool.free).trans haccounts.places
  · rw [hout.length_eq]
    exact haccounts.count

/-! ## One event -/

/-- Wherever in the queue the search goes on, the instance in hand finds its place. -/
theorem Accounts.handOver (haccounts : Accounts initial [item] pool) (queue : List Nat) :
    Accounts initial [] (pool.handOver item queue) := by
  induction queue with
  | nil =>
      -- Nobody waits: the instance goes to the free ones, and only now the count goes down.
      have hcount := haccounts.count
      constructor
      · exact haccounts.places
      · simp only [List.length_cons, List.length_nil] at hcount ⊢
        change pool.checkedOut - 1 = 0 + pool.out.length
        omega
  | cons ticket rest ih =>
      unfold Pool.handOver
      split
      next hqueued =>
        have hnotGone : pool.claim ticket ≠ .gone := by
          intro hgone
          simp [hgone, Claim.isQueued] at hqueued
        have hpopped : Accounts initial [item] { pool with queue := rest } :=
          ⟨haccounts.places, haccounts.count⟩
        exact hpopped.give hnotGone (Claim.item?_eq_none_of_isQueued hqueued) rfl
      next => exact ih

theorem Accounts.drop (haccounts : Accounts initial [] pool) (ticket : Nat) :
    Accounts initial [] (pool.drop ticket) := by
  unfold Pool.drop
  cases hclaim : pool.claim ticket with
  | unpolled => exact haccounts.change (by simp [hclaim]) (by simp [hclaim, Claim.item?])
  | queued => exact haccounts.change (by simp [hclaim]) (by simp [hclaim, Claim.item?])
  | offered item => exact (haccounts.take (by simp [hclaim, Claim.item?])).handOver _
  | held item => exact (haccounts.take (by simp [hclaim, Claim.item?])).handOver _
  | gone => exact haccounts

theorem Accounts.acquire (haccounts : Accounts initial [] pool)
    (hunpolled : pool.claim ticket = .unpolled) :
    Accounts initial [] (pool.acquire ticket) := by
  have hnotGone : pool.claim ticket ≠ .gone := by simp [hunpolled]
  have hnone : (pool.claim ticket).item? = none := by simp [hunpolled, Claim.item?]
  have hplaces := haccounts.places
  have hcount := haccounts.count
  simp only [List.length_nil] at hcount
  unfold Pool.acquire
  split
  next item rest hfree =>
    have htaken : Accounts initial [item]
        { pool with free := rest, checkedOut := pool.checkedOut + 1 } := by
      constructor
      · rw [hfree] at hplaces
        exact hplaces
      · change pool.checkedOut + 1 = 1 + pool.out.length
        omega
    exact htaken.give hnotGone hnone rfl
  next hfree =>
    split
    next =>
      have hmade : Accounts initial [pool.create pool.created]
          { pool with checkedOut := pool.checkedOut + 1, created := pool.created + 1 } := by
        constructor
        · have hentered : initial ++ (List.range (pool.created + 1)).map pool.create =
              pool.entered initial ++ [pool.create pool.created] := by
            simp [entered, List.range_succ]
          change [pool.create pool.created] ++ (pool.free ++ pool.out) ~
            initial ++ (List.range (pool.created + 1)).map pool.create
          rw [hentered]
          exact (hplaces.cons _).trans (List.perm_append_singleton _ _).symm
        · change pool.checkedOut + 1 = 1 + pool.out.length
          omega
      exact hmade.give hnotGone hnone rfl
    next =>
      have hqueued : Accounts initial [] { pool with queue := pool.queue ++ [ticket] } :=
        ⟨haccounts.places, haccounts.count⟩
      exact hqueued.change hnotGone hnone.symm

theorem Accounts.poll (haccounts : Accounts initial [] pool) (ticket : Nat) (cancelled : Bool) :
    Accounts initial [] (pool.poll ticket cancelled).2 := by
  unfold Pool.poll
  cases hclaim : pool.claim ticket with
  | held item => exact haccounts
  | gone => exact haccounts
  | unpolled =>
      cases cancelled with
      | true => exact haccounts.drop ticket
      | false => exact haccounts.acquire hclaim
  | queued =>
      cases cancelled with
      | true => exact haccounts.drop ticket
      | false => exact haccounts
  | offered item =>
      cases cancelled with
      | true => exact haccounts.drop ticket
      | false => exact haccounts.change (by simp [hclaim]) (by simp [hclaim, Claim.item?])

theorem Accounts.step {traffic : Traffic α} (haccounts : Accounts initial [] traffic.pool)
    (event : PoolEvent) : Accounts initial [] (traffic.step event).pool := by
  cases event with
  | enter => exact haccounts.enter
  | poll ticket => exact haccounts.poll ticket _
  | fire ticket => exact haccounts
  | drop ticket => exact haccounts.drop ticket

/-! ## Every reachable state -/

theorem accounts_run (max : Nat) (initial : List α) (create : Nat → α)
    (events : List PoolEvent) :
    Accounts initial [] ((Traffic.new max initial create).run events).pool := by
  apply Traffic.run_induction (Accounts initial [])
  · intro traffic event haccounts
    exact haccounts.step event
  · exact accounts_new max initial create

theorem nodup_entered {create : Nat → α} (hinitial : initial.Nodup)
    (hcreate : Function.Injective create) (hfresh : ∀ n, create n ∉ initial) (count : Nat) :
    (initial ++ (List.range count).map create).Nodup := by
  rw [List.nodup_append]
  refine ⟨hinitial, List.nodup_range.map hcreate, ?_⟩
  intro x hx y hy heq
  obtain ⟨n, _, rfl⟩ := List.mem_map.mp hy
  exact hfresh n (heq ▸ hx)

theorem length_out_pos_of_item {claims : List (Claim α)}
    (hitem : (claims.getD ticket .gone).item? = some item) :
    0 < (claims.filterMap Claim.item?).length := by
  apply List.length_pos_of_mem (a := item)
  rw [List.mem_filterMap]
  refine ⟨claims.getD ticket .gone, ?_, hitem⟩
  rw [List.getD_eq_getElem?_getD] at hitem ⊢
  cases hclaim : claims[ticket]? with
  | none => simp [hclaim, Claim.item?] at hitem
  | some claim => simpa using List.mem_of_getElem? hclaim

end Pool
end DecisionLogic
