import DecisionLogic.Proofs.Calls.Alone
import DecisionLogic.Proofs.Calls.Traffic
import DecisionLogic.Proofs.Pool.Claims

/-!
# Calls and their instances

Every call of a pooled program has its own claim on an instance, and it works on an instance exactly
as long as its claim holds that instance.  So two calls never work on one instance, and the bound of
the pool bounds the number of calls that work at all.
-/

open scoped List

namespace DecisionLogic

structure Call.Holds (number : Nat) (call : Call) (claim : Claim Nat) : Prop where
  ticket : call.ticket = some number
  ended : call.job.isOver = true → claim = .gone
  notGone : call.job.isOver = false → claim ≠ .gone
  seat : call.job.isOver = false → call.seat = claim.guarded?
  unseated : call.seat = none → call.job.bag = []

theorem Call.Holds.sameHold {number : Nat} {call : Call} {claim claim' : Claim Nat}
    (hholds : call.Holds number claim) (hsame : claim'.SameHold claim) :
    call.Holds number claim' where
  ticket := hholds.ticket
  ended := fun hover => hsame.gone.mpr (hholds.ended hover)
  notGone := fun hactive hgone => hholds.notGone hactive (hsame.gone.mp hgone)
  seat := fun hactive => (hholds.seat hactive).trans hsame.guarded.symm
  unseated := hholds.unseated

theorem Call.Holds.held {number seat : Nat} {call : Call} {claim : Claim Nat}
    (hholds : call.Holds number claim) (hactive : call.job.isOver = false)
    (hseat : call.seat = some seat) : claim = .held seat := by
  apply Claim.eq_held_of_guarded
  rw [← hholds.seat hactive, hseat]

/-! ## The pool of a program -/

/-- The pool of a program that has `count` calls and no more than `limit` instances; it started with
instance 0. -/
structure Pool.Seating (pool : Pool Nat) (limit count : Nat) : Prop where
  accounts : pool.Accounts [0] []
  max : pool.max = limit
  create : pool.create = (· + 1)
  bound : [0].length + pool.created ≤ pool.max
  length : pool.claims.length = count

namespace Pool.Seating

variable {pool : Pool Nat} {limit count : Nat}

theorem new (max : Nat) : (Pool.new max [0] (· + 1)).Seating (Nat.max max 1) 0 where
  accounts := accounts_new max [0] (· + 1)
  max := rfl
  create := rfl
  bound := Nat.le_max_right _ _
  length := rfl

theorem enter (hseating : pool.Seating limit count) : pool.enter.2.Seating limit (count + 1) where
  accounts := hseating.accounts.enter
  max := hseating.max
  create := hseating.create
  bound := hseating.bound
  length := by rw [Pool.length_enter, hseating.length]

theorem drop (hseating : pool.Seating limit count) (ticket : Nat) : (pool.drop ticket).Seating limit count where
  accounts := hseating.accounts.drop ticket
  max := (congrArg Prod.fst (pool.terms_drop ticket)).trans hseating.max
  create := (congrArg Prod.snd (pool.terms_drop ticket)).trans hseating.create
  bound := by
    have hmax : (pool.drop ticket).max = pool.max := congrArg Prod.fst (pool.terms_drop ticket)
    rw [Pool.created_drop, hmax]
    exact hseating.bound
  length := (pool.length_drop ticket).trans hseating.length

theorem poll (hseating : pool.Seating limit count) (ticket : Nat) (cancelled : Bool) :
    (pool.poll ticket cancelled).2.Seating limit count where
  accounts := hseating.accounts.poll ticket cancelled
  max := (congrArg Prod.fst (pool.terms_poll ticket cancelled)).trans hseating.max
  create := (congrArg Prod.snd (pool.terms_poll ticket cancelled)).trans hseating.create
  bound := by
    have hmax : (pool.poll ticket cancelled).2.max = pool.max :=
      congrArg Prod.fst (pool.terms_poll ticket cancelled)
    rw [hmax]
    exact hseating.accounts.created_poll_le le_rfl hseating.bound ticket cancelled
  length := (pool.length_poll ticket cancelled).trans hseating.length

theorem held_ne (hseating : pool.Seating limit count) {ticket other seat seat' : Nat}
    (hne : ticket ≠ other) (hticket : pool.claim ticket = .held seat)
    (hother : pool.claim other = .held seat') : seat ≠ seat' := by
  apply hseating.accounts.held_ne _ hne hticket hother
  rw [Pool.entered, hseating.create]
  apply nodup_entered (List.nodup_singleton 0)
  · exact fun m n hsucc => Nat.succ.inj hsucc
  · simp

end Pool.Seating

/-! ## All calls -/

namespace Calls

structure Seated (calls : Calls) (limit : Nat) (pool : Pool Nat) : Prop where
  seating : pool.Seating limit calls.calls.length
  holds : ∀ (number : Nat) (call : Call), calls.calls[number]? = some call →
    call.Holds number (pool.claim number)

variable {calls calls' : Calls} {pool pool' : Pool Nat} {limit number : Nat} {new : Call}

theorem Seated.change (hseated : calls.Seated limit pool) (hseating : pool'.Seating limit calls.calls.length)
    (hcalls : calls'.calls = calls.calls.set number new)
    (hnew : new.Holds number (pool'.claim number))
    (hothers : ∀ other, other ≠ number → (pool'.claim other).SameHold (pool.claim other)) :
    calls'.Seated limit pool' := by
  constructor
  · rw [hcalls, List.length_set]
    exact hseating
  · intro other call hcall
    rw [hcalls] at hcall
    by_cases heq : other = number
    · subst heq
      obtain ⟨-, rfl⟩ : other < calls.calls.length ∧ new = call := by
        simpa [List.getElem?_set] using hcall
      exact hnew
    · rw [List.getElem?_set_ne (Ne.symm heq)] at hcall
      exact (hseated.holds other call hcall).sameHold (hothers other heq)

theorem getElem?_concat {items : List Call} {last item : Call} {index : Nat}
    (hitem : (items ++ [last])[index]? = some item) :
    index < items.length ∧ items[index]? = some item ∨ index = items.length ∧ last = item := by
  rw [List.getElem?_append] at hitem
  split at hitem
  next hlt => exact .inl ⟨hlt, hitem⟩
  next hge =>
    rw [List.getElem?_singleton] at hitem
    split at hitem
    · exact .inr ⟨by omega, Option.some.inj hitem⟩
    · cases hitem

theorem Seated.enter (hseated : calls.Seated limit pool) (hcalls : calls'.calls = calls.calls ++ [new])
    (hnew : new.Holds calls.calls.length .unpolled) : calls'.Seated limit pool.enter.2 := by
  have hlength := hseated.seating.length
  constructor
  · rw [hcalls, List.length_append]
    exact hseated.seating.enter
  · intro other call hcall
    rw [hcalls] at hcall
    rcases getElem?_concat hcall with ⟨hlt, hold⟩ | ⟨rfl, rfl⟩
    · rw [Pool.claim_enter_of_lt (by omega)]
      exact hseated.holds other call hold
    · rw [← hlength] at hnew ⊢
      rw [Pool.claim_enter_last]
      exact hnew

def holders (calls : Calls) : List Call :=
  calls.calls.filter fun call => call.seat.isSome && !call.job.isOver

theorem Seated.length_holders (hseated : calls.Seated limit pool) :
    calls.holders.length = pool.guards.length := by
  have hpairs : List.Forall₂ (fun call claim => ∃ number, Call.Holds number call claim) calls.calls
      pool.claims := by
    rw [List.forall₂_iff_get]
    refine ⟨hseated.seating.length.symm, ?_⟩
    intro i hcall hclaim
    refine ⟨i, ?_⟩
    have hholds := hseated.holds i calls.calls[i] (List.getElem?_eq_getElem hcall)
    have hget : pool.claim i = pool.claims[i] := by
      simp [Pool.claim, List.getD_eq_getElem?_getD, hclaim]
    rw [hget] at hholds
    exact hholds
  unfold holders Pool.guards
  generalize calls.calls = list at hpairs
  generalize pool.claims = claims at hpairs
  induction hpairs with
  | nil => rfl
  | @cons call claim list claims hholds _ ih =>
      obtain ⟨number, hholds⟩ := hholds
      cases hover : call.job.isOver with
      | true =>
          have hguarded : claim.guarded? = none := by
            rw [hholds.ended hover]
            rfl
          simp [hover, hguarded, ih]
      | false =>
          have hseat := hholds.seat hover
          cases hguarded : claim.guarded? with
          | none =>
              rw [hguarded] at hseat
              simp [hseat, hguarded, ih]
          | some seat =>
              rw [hguarded] at hseat
              simp [hseat, hguarded, hover, ih]

theorem Seated.holders_le (hseated : calls.Seated limit pool) : calls.holders.length ≤ limit := by
  have htotal := hseated.seating.accounts.length_entered
  have hbound := hseated.seating.bound
  have hmax := hseated.seating.max
  have hcount := hseated.seating.accounts.count
  have hout := pool.out_perm.length_eq
  rw [List.length_append] at hout
  rw [hseated.length_holders]
  simp only [List.length_nil] at hcount
  omega

end Calls
end DecisionLogic
