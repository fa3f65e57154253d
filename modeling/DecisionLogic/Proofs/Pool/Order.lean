import DecisionLogic.Proofs.Pool.Endings
import DecisionLogic.Proofs.Pool.Line

/-!
# First come, first served

The history of a pool's waiting claims: which had to wait, in the order of their first polls, which
were sent an instance, in the order in which that happened, and which gave up before.  Those that
were sent one, followed by those that still wait, are the claims that had to wait, in the order of
their arrival and without those that gave up.
-/

namespace DecisionLogic

namespace Claim

variable {α : Type}

/-- How far a claim has come. -/
def stage : Claim α → Nat
  | .unpolled => 0
  | .queued => 1
  | .offered _ => 2
  | .held _ => 3
  | .gone => 4

theorem stage_le_gone (claim : Claim α) : claim.stage ≤ (Claim.gone : Claim α).stage := by
  cases claim <;> simp [stage]

theorem eq_gone_of_stage_le {claim : Claim α} (hle : (Claim.gone : Claim α).stage ≤ claim.stage) :
    claim = .gone := by
  cases claim with
  | gone => rfl
  | _ => simp [stage] at hle

end Claim

namespace Pool

variable {α : Type} {pool pool' pool'' : Pool α} {ticket other : Nat} {item : α} {new : Claim α}

/-! ## Claims only go forward -/

/-- No claim that exists goes back to an earlier stage. -/
structure Ages (pool pool' : Pool α) : Prop where
  length : pool.claims.length ≤ pool'.claims.length
  stage : ∀ ticket < pool.claims.length, (pool.claim ticket).stage ≤ (pool'.claim ticket).stage

theorem Ages.refl (pool : Pool α) : pool.Ages pool :=
  ⟨Nat.le_refl _, fun _ _ => Nat.le_refl _⟩

theorem Ages.trans (hfirst : pool.Ages pool') (hsecond : pool'.Ages pool'') :
    pool.Ages pool'' := by
  constructor
  · exact hfirst.length.trans hsecond.length
  · intro ticket hlt
    have hlt' : ticket < pool'.claims.length := Nat.lt_of_lt_of_le hlt hfirst.length
    exact (hfirst.stage ticket hlt).trans (hsecond.stage ticket hlt')

/-- Nobody becomes unpolled again. -/
theorem Ages.unpolled (hages : pool.Ages pool') (hlt : ticket < pool.claims.length)
    (hunpolled : pool'.claim ticket = .unpolled) : pool.claim ticket = .unpolled := by
  have hstage := hages.stage ticket hlt
  rw [hunpolled] at hstage
  cases hclaim : pool.claim ticket with
  | unpolled => rfl
  | _ => simp [hclaim, Claim.stage] at hstage

theorem ages_setClaim (hstage : (pool.claim ticket).stage ≤ new.stage) :
    pool.Ages (pool.setClaim ticket new) := by
  constructor
  · rw [length_setClaim]
  · intro other hlt
    by_cases heq : other = ticket
    · subst heq
      rwa [claim_setClaim_of_lt hlt]
    · rw [claim_setClaim_of_ne heq]

theorem ages_enter (pool : Pool α) : pool.Ages pool.enter.2 := by
  constructor
  · rw [length_enter]
    omega
  · intro ticket hlt
    rw [claim_enter_of_lt hlt]

theorem ages_release (pool : Pool α) (item : α) : pool.Ages (pool.release item) := by
  have hhanded := handedOver_handOver pool item pool.queue
  unfold release
  generalize pool.handOver item pool.queue = after at hhanded
  cases hhanded with
  | freed => exact ⟨Nat.le_refl _, fun _ _ => Nat.le_refl _⟩
  | sent first rest hsuffix hfirst hline =>
      have hstage : (pool.claim first).stage ≤ (Claim.offered item).stage := by
        simp [isWaiting_iff.mp hfirst, Claim.stage]
      have hset : pool.Ages (pool.setClaim first (.offered item)) := ages_setClaim hstage
      exact ⟨hset.length, hset.stage⟩

theorem ages_drop (pool : Pool α) (ticket : Nat) : pool.Ages (pool.drop ticket) := by
  have hset : pool.Ages (pool.setClaim ticket .gone) := ages_setClaim (Claim.stage_le_gone _)
  unfold drop
  cases pool.claim ticket with
  | unpolled => exact hset
  | queued => exact hset
  | offered item => exact hset.trans (ages_release _ item)
  | held item => exact hset.trans (ages_release _ item)
  | gone => exact .refl pool

theorem ages_acquire (hunpolled : pool.claim ticket = .unpolled) :
    pool.Ages (pool.acquire ticket) := by
  have hset (new : Claim α) : pool.Ages (pool.setClaim ticket new) := by
    apply ages_setClaim
    rw [hunpolled]
    exact Nat.zero_le _
  unfold acquire
  split
  next item rest hfree => exact ⟨(hset (.held item)).length, (hset (.held item)).stage⟩
  next hfree =>
    split
    · have hheld := hset (.held (pool.create pool.created))
      exact ⟨hheld.length, hheld.stage⟩
    · exact ⟨(hset .queued).length, (hset .queued).stage⟩

theorem ages_poll (pool : Pool α) (ticket : Nat) (cancelled : Bool) :
    pool.Ages (pool.poll ticket cancelled).2 := by
  have hdrop := ages_drop pool ticket
  unfold poll
  cases hclaim : pool.claim ticket with
  | held item => exact .refl pool
  | gone => exact .refl pool
  | unpolled =>
      cases cancelled with
      | true => exact hdrop
      | false => exact ages_acquire hclaim
  | queued =>
      cases cancelled with
      | true => exact hdrop
      | false => exact .refl pool
  | offered item =>
      cases cancelled with
      | true => exact hdrop
      | false =>
          apply ages_setClaim
          simp [hclaim, Claim.stage]

/-! ## Steps -/

/-- What one event of a pool's traffic may do, as far as waiting claims are concerned. -/
structure Moves (pool pool' : Pool α) : Prop where
  queueing : pool'.Queueing
  waits : pool.Waits pool'
  ages : pool.Ages pool'

theorem Queueing.moves_enter (hqueueing : pool.Queueing) : pool.Moves pool.enter.2 :=
  ⟨hqueueing.enter, waits_enter pool, ages_enter pool⟩

theorem Queueing.moves_poll (hqueueing : pool.Queueing) (ticket : Nat) (cancelled : Bool) :
    pool.Moves (pool.poll ticket cancelled).2 :=
  have hpoll := hqueueing.poll ticket cancelled
  ⟨hpoll.1, hpoll.2, ages_poll pool ticket cancelled⟩

theorem Queueing.moves_drop (hqueueing : pool.Queueing) (ticket : Nat) :
    pool.Moves (pool.drop ticket) :=
  ⟨hqueueing.drop ticket, hqueueing.waits_drop ticket, ages_drop pool ticket⟩

/-- A poll that is answered with an instance and what follows it count as one event. -/
theorem Queueing.moves_after_held (hqueueing : pool.Queueing) {cancelled : Bool}
    (hheld : (pool.poll ticket cancelled).1 = .held item)
    (hmoves : (pool.poll ticket cancelled).2.Moves pool') : pool.Moves pool' := by
  have hsame := hqueueing.sameLine_of_held hheld
  have hages := ages_poll pool ticket cancelled
  have hlength := length_poll pool ticket cancelled
  generalize (pool.poll ticket cancelled).2 = after at hmoves hsame hages hlength
  have hunpolled (other : Nat) (hafter : after.claim other = .unpolled) :
      pool.claim other = .unpolled := by
    have hnotGone : after.claim other ≠ .gone := by simp [hafter]
    exact hages.unpolled (hlength ▸ lt_length_of_claim hnotGone) hafter
  exact ⟨hmoves.queueing, hsame.waits hunpolled hmoves.waits, hages.trans hmoves.ages⟩

/-! ## The history -/

/-- The claims that an event took from one condition to another. -/
def moved (was becomes : Claim α → Bool) (pool pool' : Pool α) : List Nat :=
  (List.range pool'.claims.length).filter fun ticket =>
    was (pool.claim ticket) && becomes (pool'.claim ticket)

end Pool

/-- What happened to the claims that had to wait, in the order in which it happened. -/
structure WaitLog where
  /-- Their first poll found no instance. -/
  arrived : List Nat
  /-- They were sent an instance. -/
  sent : List Nat
  /-- They were dropped or cancelled before. -/
  abandoned : List Nat

namespace WaitLog

variable {α : Type}

def empty : WaitLog :=
  ⟨[], [], []⟩

def record (log : WaitLog) (pool pool' : Pool α) : WaitLog where
  arrived := log.arrived ++ pool.moved Claim.isUnpolled Claim.isQueued pool'
  sent := log.sent ++ pool.moved Claim.isQueued Claim.isOffered pool'
  abandoned := log.abandoned ++ pool.moved Claim.isQueued Claim.isGone pool'

end WaitLog

namespace Pool

variable {α : Type} {pool pool' : Pool α} {ticket : Nat} {was becomes : Claim α → Bool}

/-- Between the two conditions the claim began to wait or ceased to. -/
def Marks (was becomes : Claim α → Bool) : Prop :=
  ∀ claim claim' : Claim α, was claim = true → becomes claim' = true →
    claim.isQueued ≠ claim'.isQueued

theorem marks_arrived : Marks (α := α) Claim.isUnpolled Claim.isQueued := by
  intro claim claim'
  cases claim <;> cases claim' <;> simp [Claim.isUnpolled, Claim.isQueued]

theorem marks_sent : Marks (α := α) Claim.isQueued Claim.isOffered := by
  intro claim claim'
  cases claim <;> cases claim' <;> simp [Claim.isOffered, Claim.isQueued]

theorem marks_abandoned : Marks (α := α) Claim.isQueued Claim.isGone := by
  intro claim claim'
  cases claim <;> cases claim' <;> simp [Claim.isGone, Claim.isQueued]

theorem moved_stays (hmarks : Marks was becomes) (hsame : pool.SameLine pool') :
    pool.moved was becomes pool' = [] := by
  unfold moved
  rw [List.filter_eq_nil_iff]
  intro ticket _ hmoved
  rw [Bool.and_eq_true] at hmoved
  exact hmarks _ _ hmoved.1 hmoved.2 (hsame.waiting ticket).symm

theorem moved_changed (hmarks : Marks was becomes)
    (hothers : ∀ other, other ≠ ticket → pool'.isWaiting other = pool.isWaiting other)
    (hlt : ticket < pool'.claims.length) :
    pool.moved was becomes pool' =
      if was (pool.claim ticket) && becomes (pool'.claim ticket) then [ticket] else [] := by
  have hnodup : (pool.moved was becomes pool').Nodup := List.nodup_range.filter _
  have hmem : ∀ other, other ∈ pool.moved was becomes pool' ↔
      other = ticket ∧ (was (pool.claim ticket) && becomes (pool'.claim ticket)) = true := by
    intro other
    unfold moved
    rw [List.mem_filter, List.mem_range]
    constructor
    · rintro ⟨-, hmoved⟩
      have heq : other = ticket := by
        by_contra hne
        rw [Bool.and_eq_true] at hmoved
        exact hmarks _ _ hmoved.1 hmoved.2 (hothers other hne).symm
      exact ⟨heq, heq ▸ hmoved⟩
    · rintro ⟨rfl, hmoved⟩
      exact ⟨hlt, hmoved⟩
  split
  next hmoved =>
    rw [← List.perm_singleton, List.perm_ext_iff_of_nodup hnodup (List.nodup_singleton ticket)]
    intro other
    rw [hmem, List.mem_singleton]
    exact and_iff_left hmoved
  next hmoved =>
    rw [List.eq_nil_iff_forall_not_mem]
    intro other hother
    exact hmoved ((hmem other).mp hother).2

end Pool

namespace WaitLog

variable {α : Type} {log : WaitLog} {pool pool' : Pool α}

/-- Sending keeps the order of arrival, as far as the pool has come. -/
structure InOrder (log : WaitLog) (pool : Pool α) : Prop where
  order : log.arrived.filter (· ∉ log.abandoned) = log.sent ++ pool.line
  sent : ∀ ticket ∈ log.sent,
    ticket < pool.claims.length ∧ Claim.queued.stage (α := α) < (pool.claim ticket).stage
  abandoned : ∀ ticket ∈ log.abandoned,
    ticket < pool.claims.length ∧ pool.claim ticket = .gone

theorem inOrder_empty (max : Nat) (initial : List α) (create : Nat → α) :
    WaitLog.empty.InOrder (Pool.new max initial create) :=
  ⟨rfl, fun _ hmem => absurd hmem List.not_mem_nil, fun _ hmem => absurd hmem List.not_mem_nil⟩

theorem InOrder.step (hinOrder : log.InOrder pool) (hmoves : pool.Moves pool') :
    (log.record pool pool').InOrder pool' := by
  obtain ⟨horder, hsent, habandoned⟩ := hinOrder
  have hages := hmoves.ages
  have hsent' : ∀ ticket ∈ log.sent,
      ticket < pool'.claims.length ∧ Claim.queued.stage (α := α) < (pool'.claim ticket).stage := by
    intro ticket hticket
    obtain ⟨hlt, hstage⟩ := hsent ticket hticket
    exact ⟨Nat.lt_of_lt_of_le hlt hages.length,
      Nat.lt_of_lt_of_le hstage (hages.stage ticket hlt)⟩
  have habandoned' : ∀ ticket ∈ log.abandoned,
      ticket < pool'.claims.length ∧ pool'.claim ticket = .gone := by
    intro ticket hticket
    obtain ⟨hlt, hgone⟩ := habandoned ticket hticket
    have hstage := hages.stage ticket hlt
    rw [hgone] at hstage
    exact ⟨Nat.lt_of_lt_of_le hlt hages.length, Claim.eq_gone_of_stage_le hstage⟩
  have hentered {ticket : Nat} (hclaim : pool.claim ticket ≠ .gone) :
      ticket < pool'.claims.length :=
    Nat.lt_of_lt_of_le (Pool.lt_length_of_claim hclaim) hages.length
  cases hmoves.waits with
  | stays hsame =>
      have hrecord : log.record pool pool' = log := by
        simp [record, Pool.moved_stays Pool.marks_arrived hsame,
          Pool.moved_stays Pool.marks_sent hsame, Pool.moved_stays Pool.marks_abandoned hsame]
      rw [hrecord]
      exact ⟨hsame.line ▸ horder, hsent', habandoned'⟩
  | joins ticket hbefore hafter hothers hline =>
      have hlt : ticket < pool'.claims.length := hentered (by simp [hbefore])
      have hrecord : log.record pool pool' =
          { log with arrived := log.arrived ++ [ticket] } := by
        simp [record, Pool.moved_changed Pool.marks_arrived hothers hlt,
          Pool.moved_changed Pool.marks_sent hothers hlt,
          Pool.moved_changed Pool.marks_abandoned hothers hlt, hbefore, hafter,
          Claim.isUnpolled, Claim.isQueued]
      have hnew : ticket ∉ log.abandoned := by
        intro hmem
        have hgone := (habandoned ticket hmem).2
        rw [hbefore] at hgone
        cases hgone
      rw [hrecord]
      refine ⟨?_, hsent', habandoned'⟩
      rw [hline, ← List.append_assoc, ← horder, List.filter_append]
      simp [hnew]
  | served ticket item hbefore hafter hothers hline =>
      have hlt : ticket < pool'.claims.length := hentered (by simp [hbefore])
      have hrecord : log.record pool pool' = { log with sent := log.sent ++ [ticket] } := by
        simp [record, Pool.moved_changed Pool.marks_arrived hothers hlt,
          Pool.moved_changed Pool.marks_sent hothers hlt,
          Pool.moved_changed Pool.marks_abandoned hothers hlt, hbefore, hafter,
          Claim.isUnpolled, Claim.isQueued, Claim.isOffered, Claim.isGone]
      rw [hrecord]
      refine ⟨?_, ?_, habandoned'⟩
      · rw [horder, hline, List.append_assoc]
        rfl
      · intro other hother
        rcases List.mem_append.mp hother with hearlier | hlast
        · exact hsent' other hearlier
        · rw [List.mem_singleton.mp hlast, hafter]
          exact ⟨hlt, by simp [Claim.stage]⟩
  | leaves ticket hbefore hafter hothers hline =>
      have hlt : ticket < pool'.claims.length := hentered (by simp [hbefore])
      have hrecord : log.record pool pool' =
          { log with abandoned := log.abandoned ++ [ticket] } := by
        simp [record, Pool.moved_changed Pool.marks_arrived hothers hlt,
          Pool.moved_changed Pool.marks_sent hothers hlt,
          Pool.moved_changed Pool.marks_abandoned hothers hlt, hbefore, hafter,
          Claim.isUnpolled, Claim.isQueued, Claim.isOffered, Claim.isGone]
      have hunsent : ∀ other ∈ log.sent, other ≠ ticket := by
        rintro other hother rfl
        have hstage := (hsent other hother).2
        rw [hbefore] at hstage
        exact Nat.lt_irrefl _ hstage
      rw [hrecord]
      refine ⟨?_, hsent', ?_⟩
      · calc
          log.arrived.filter (· ∉ log.abandoned ++ [ticket]) =
              (log.arrived.filter (· ∉ log.abandoned)).filter (· ≠ ticket) := by
            rw [List.filter_filter]
            apply List.filter_congr
            intro other _
            simp [and_comm]
          _ = log.sent.filter (· ≠ ticket) ++ pool.line.filter (· ≠ ticket) := by
            rw [horder, List.filter_append]
          _ = log.sent ++ pool'.line := by
            rw [← hline, List.filter_eq_self.mpr (by simpa using hunsent)]
      · intro other hother
        rcases List.mem_append.mp hother with hearlier | hlast
        · exact habandoned' other hearlier
        · rw [List.mem_singleton.mp hlast]
          exact ⟨hlt, hafter⟩

/-- Those in line are those that arrived and still wait. -/
theorem InOrder.line_eq (hinOrder : log.InOrder pool) :
    pool.line = log.arrived.filter pool.isWaiting := by
  have hsent : log.sent.filter pool.isWaiting = [] := by
    rw [List.filter_eq_nil_iff]
    intro ticket hticket hwaiting
    have hstage := (hinOrder.sent ticket hticket).2
    rw [Pool.isWaiting_iff.mp hwaiting] at hstage
    exact Nat.lt_irrefl _ hstage
  have hline : pool.line.filter pool.isWaiting = pool.line := by
    rw [List.filter_eq_self]
    exact fun ticket hticket => (List.mem_filter.mp hticket).2
  have hkept : (log.arrived.filter (· ∉ log.abandoned)).filter pool.isWaiting =
      log.arrived.filter pool.isWaiting := by
    rw [List.filter_filter]
    apply List.filter_congr
    intro ticket _
    by_cases hwaiting : pool.isWaiting ticket = true
    · have hnotGone : ticket ∉ log.abandoned := by
        intro hmem
        have hgone := (hinOrder.abandoned ticket hmem).2
        rw [Pool.isWaiting_iff.mp hwaiting] at hgone
        cases hgone
      simp [hwaiting, hnotGone]
    · simp [hwaiting]
  calc
    pool.line = log.sent.filter pool.isWaiting ++ pool.line.filter pool.isWaiting := by
      rw [hsent, hline, List.nil_append]
    _ = (log.sent ++ pool.line).filter pool.isWaiting := by
      rw [List.filter_append]
    _ = log.arrived.filter pool.isWaiting := by rw [← hinOrder.order, hkept]

end WaitLog

namespace Traffic

variable {α : Type}

/-- One more event, and what it means for the claims that wait. -/
def follow (state : Traffic α × WaitLog) (event : PoolEvent) : Traffic α × WaitLog :=
  (state.1.step event, state.2.record state.1.pool (state.1.step event).pool)

def waitLog (traffic : Traffic α) (events : List PoolEvent) : WaitLog :=
  (events.foldl follow (traffic, .empty)).2

/-- The event gives `item` back: its guard is dropped, or the claim that it was sent to is dropped
or cancelled before it received it. -/
inductive Returns (traffic : Traffic α) (item : α) : PoolEvent → Prop
  | guard (ticket : Nat) (hheld : traffic.pool.claim ticket = .held item) :
      Returns traffic item (.drop ticket)
  | dropped (ticket : Nat) (hoffered : traffic.pool.claim ticket = .offered item) :
      Returns traffic item (.drop ticket)
  | cancelled (ticket : Nat) (hoffered : traffic.pool.claim ticket = .offered item)
      (hfired : ticket ∈ traffic.fired) : Returns traffic item (.poll ticket)

theorem moves_step {traffic : Traffic α} (hqueueing : traffic.pool.Queueing) (event : PoolEvent) :
    traffic.pool.Moves (traffic.step event).pool := by
  cases event with
  | enter => exact hqueueing.moves_enter
  | poll ticket => exact hqueueing.moves_poll ticket _
  | fire ticket => exact ⟨hqueueing, .refl _, .refl _⟩
  | drop ticket => exact hqueueing.moves_drop ticket

theorem follow_run (traffic : Traffic α) (log : WaitLog) (events : List PoolEvent) :
    (events.foldl follow (traffic, log)).1 = traffic.run events := by
  induction events generalizing traffic log with
  | nil => rfl
  | cons event events ih => exact ih _ _

theorem inOrder_follow {traffic : Traffic α} {log : WaitLog} (hqueueing : traffic.pool.Queueing)
    (hinOrder : log.InOrder traffic.pool) (events : List PoolEvent) :
    (events.foldl follow (traffic, log)).1.pool.Queueing ∧
      (events.foldl follow (traffic, log)).2.InOrder
        (events.foldl follow (traffic, log)).1.pool := by
  induction events generalizing traffic log with
  | nil => exact ⟨hqueueing, hinOrder⟩
  | cons event events ih =>
      have hmoves := moves_step hqueueing event
      exact ih hmoves.queueing (hinOrder.step hmoves)

theorem step_of_returns {traffic : Traffic α} {item : α} {event : PoolEvent}
    (hreturns : traffic.Returns item event) :
    (∀ first rest, traffic.pool.line = first :: rest →
      (traffic.step event).pool.claim first = .offered item) ∧
    (traffic.pool.line = [] → (traffic.step event).pool.free = item :: traffic.pool.free) := by
  cases hreturns with
  | guard ticket hheld =>
      apply Pool.drop_spec
      rw [hheld]
      rfl
  | dropped ticket hoffered =>
      apply Pool.drop_spec
      rw [hoffered]
      rfl
  | cancelled ticket hoffered hfired =>
      have hstep : (traffic.step (.poll ticket)).pool = traffic.pool.drop ticket := by
        simp [step, Pool.poll, hoffered, hfired]
      rw [hstep]
      apply Pool.drop_spec
      rw [hoffered]
      rfl

end Traffic

namespace Pool

variable {α : Type}

/-- Whatever happens to a pool: while a claim waits, nothing is free and no more may be made; the
pool counts those that wait; whoever comes while one waits has to wait too; and those that had to
wait are sent instances in the order of their first polls, without those that gave up before.  An
instance that comes back, also one that was sent and never received, goes to the longest waiting
claim, and becomes free when there is none.  A claim goes on waiting at each of its polls until it
is sent an instance, which its next poll receives, or is dropped or cancelled. -/
theorem run_serves_in_order (max : Nat) (initial : List α) (create : Nat → α)
    (events : List PoolEvent) :
    let traffic := (Traffic.new max initial create).run events
    let log := (Traffic.new max initial create).waitLog events
    let pool := traffic.pool
    (∀ ticket, pool.claim ticket = .queued → pool.free = [] ∧ pool.max ≤ pool.checkedOut) ∧
      pool.waiting = (pool.claims.filter Claim.isQueued).length ∧
      (∀ waiter ticket, pool.claim waiter = .queued → pool.claim ticket = .unpolled →
        (traffic.step (.poll ticket)).pool.claim ticket =
          if ticket ∈ traffic.fired then .gone else .queued) ∧
      log.arrived.filter (· ∉ log.abandoned) = log.sent ++ log.arrived.filter pool.isWaiting ∧
      (∀ ticket ∈ log.abandoned, pool.claim ticket = .gone) ∧
      (∀ event item, traffic.Returns item event →
        (∀ first rest, log.arrived.filter pool.isWaiting = first :: rest →
          (traffic.step event).pool.claim first = .offered item) ∧
        (log.arrived.filter pool.isWaiting = [] →
          (traffic.step event).pool.free = item :: pool.free)) ∧
      traffic.ClaimLaws := by
  intro traffic log pool
  obtain ⟨hqueueing, hinOrder⟩ : pool.Queueing ∧ log.InOrder pool := by
    have hstart : (Traffic.new max initial create).pool.Queueing := queueing_new max initial create
    have hfollowed :=
      Traffic.inOrder_follow hstart (WaitLog.inOrder_empty max initial create) events
    rw [Traffic.follow_run] at hfollowed
    exact hfollowed
  have hline := hinOrder.line_eq
  refine ⟨?_, hqueueing.length_line, ?_, ?_, ?_, ?_, traffic.claimLaws⟩
  · intro ticket hqueued
    exact hqueueing.exhausted ticket (isWaiting_iff.mpr hqueued)
  · intro waiter ticket hqueued hunpolled
    have hnewcomer := hqueueing.newcomer (isWaiting_iff.mpr hqueued) hunpolled
      (decide (ticket ∈ traffic.fired))
    simp only [decide_eq_true_eq] at hnewcomer
    exact hnewcomer
  · rw [← hline]
    exact hinOrder.order
  · exact fun ticket hmem => (hinOrder.abandoned ticket hmem).2
  · intro event item hreturns
    rw [← hline]
    exact Traffic.step_of_returns hreturns

/-- The first of three waiting claims gave up, so the second was sent the only instance; it gives up
before it receives it, and the third is next.  Whoever comes now queues behind the third. -/
theorem run_serves_in_order_forwarded :
    let events : List PoolEvent := [.enter, .poll 0, .enter, .poll 1, .enter, .poll 2, .enter,
      .poll 3, .drop 1, .drop 0, .enter]
    let traffic := (Traffic.new 1 [7] (· + 8)).run events
    let log := (Traffic.new 1 [7] (· + 8)).waitLog events
    log.arrived = [1, 2, 3] ∧ log.abandoned = [1] ∧ log.sent = [2] ∧
      (traffic.pool.free = [] ∧ traffic.pool.max ≤ traffic.pool.checkedOut) ∧
      (traffic.step (.poll 4)).pool.claim 4 = .queued ∧
      (traffic.step (.drop 2)).pool.claim 3 = .offered 7 := by
  intro events traffic log
  obtain ⟨hexhausted, -, hnewcomer, -, -, hreturned, -⟩ :=
    run_serves_in_order 1 [7] (· + 8) events
  refine ⟨by decide, by decide, by decide, hexhausted 3 rfl, hnewcomer 3 4 rfl rfl, ?_⟩
  exact (hreturned (.drop 2) 7 (.dropped 2 rfl)).1 3 [] (by decide)

end Pool
end DecisionLogic
