import DecisionLogic.Proofs.Pool.Claims

/-!
# The line of waiting claims

The claims that wait form a line, the longest waiting one first.  An instance that comes back goes
to the first of the line, and nobody is in line while an instance is free or may still be made.
`Pool.Waits` says what a step does to the line: it stays, or one claim joins it at the end, is
served at the front, or leaves it.
-/

namespace DecisionLogic

namespace Claim

variable {α : Type}

def isUnpolled : Claim α → Bool
  | .unpolled => true
  | _ => false

def isOffered : Claim α → Bool
  | .offered _ => true
  | _ => false

def isGone : Claim α → Bool
  | .gone => true
  | _ => false

theorem isQueued_iff {claim : Claim α} : claim.isQueued = true ↔ claim = .queued := by
  cases claim <;> simp [isQueued]

end Claim

namespace Pool

variable {α : Type} {pool pool' : Pool α} {ticket other : Nat} {item : α} {new : Claim α}

def isWaiting (pool : Pool α) (ticket : Nat) : Bool :=
  (pool.claim ticket).isQueued

/-- The claims that wait, the longest waiting one first. -/
def line (pool : Pool α) : List Nat :=
  pool.queue.filter pool.isWaiting

theorem isWaiting_iff : pool.isWaiting ticket = true ↔ pool.claim ticket = .queued :=
  Claim.isQueued_iff

theorem isWaiting_eq_false {claim : Claim α} (hclaim : pool.claim ticket = claim)
    (hother : claim.isQueued = false) : pool.isWaiting ticket = false := by
  rw [isWaiting, hclaim]
  exact hother

theorem claim_setClaim_of_lt (hlt : ticket < pool.claims.length) (new : Claim α) :
    (pool.setClaim ticket new).claim ticket = new := by
  simp [claim, setClaim, List.getD_eq_getElem?_getD, hlt]

theorem claim_setClaim_gone (pool : Pool α) (ticket : Nat) :
    (pool.setClaim ticket .gone).claim ticket = .gone := by
  by_cases hlt : ticket < pool.claims.length
  · exact claim_setClaim_of_lt hlt _
  · simp [claim, setClaim, List.getD_eq_getElem?_getD, hlt]

theorem lt_length_of_isWaiting (hwaiting : pool.isWaiting ticket = true) :
    ticket < pool.claims.length := by
  have hclaim := isWaiting_iff.mp hwaiting
  have hsome : pool.claims[ticket]? = some (pool.claim ticket) :=
    getElem?_claims (by simp [hclaim])
  obtain ⟨hlt, -⟩ := List.getElem?_eq_some_iff.mp hsome
  exact hlt

theorem isWaiting_setClaim_of_ne (hne : other ≠ ticket) (new : Claim α) :
    (pool.setClaim ticket new).isWaiting other = pool.isWaiting other := by
  unfold isWaiting
  rw [claim_setClaim_of_ne hne]

theorem isWaiting_setClaim_self (hnew : new.isQueued = false) :
    (pool.setClaim ticket new).isWaiting ticket = false := by
  by_cases hlt : ticket < pool.claims.length
  · exact isWaiting_eq_false (claim_setClaim_of_lt hlt new) hnew
  · simp [isWaiting, claim, setClaim, List.getD_eq_getElem?_getD, hlt, Claim.isQueued]

/-! ## What a step does to the line -/

structure SameLine (pool pool' : Pool α) : Prop where
  waiting : ∀ ticket, pool'.isWaiting ticket = pool.isWaiting ticket
  line : pool'.line = pool.line

/-- From one state of the pool to the next, at most one claim joins the line, is served or
leaves. -/
inductive Waits (pool pool' : Pool α) : Prop
  | stays (hsame : pool.SameLine pool')
  | joins (ticket : Nat) (hbefore : pool.claim ticket = .unpolled)
      (hafter : pool'.claim ticket = .queued)
      (hothers : ∀ other, other ≠ ticket → pool'.isWaiting other = pool.isWaiting other)
      (hline : pool'.line = pool.line ++ [ticket])
  | served (ticket : Nat) (item : α) (hbefore : pool.claim ticket = .queued)
      (hafter : pool'.claim ticket = .offered item)
      (hothers : ∀ other, other ≠ ticket → pool'.isWaiting other = pool.isWaiting other)
      (hline : pool.line = ticket :: pool'.line)
  | leaves (ticket : Nat) (hbefore : pool.claim ticket = .queued)
      (hafter : pool'.claim ticket = .gone)
      (hothers : ∀ other, other ≠ ticket → pool'.isWaiting other = pool.isWaiting other)
      (hline : pool'.line = pool.line.filter (· ≠ ticket))

theorem SameLine.refl (pool : Pool α) : pool.SameLine pool :=
  ⟨fun _ => rfl, rfl⟩

theorem SameLine.trans {pool'' : Pool α} (hfirst : pool.SameLine pool')
    (hsecond : pool'.SameLine pool'') : pool.SameLine pool'' :=
  ⟨fun ticket => (hsecond.waiting ticket).trans (hfirst.waiting ticket),
    hsecond.line.trans hfirst.line⟩

theorem Waits.refl (pool : Pool α) : pool.Waits pool :=
  .stays (.refl pool)

/-! ## Giving an instance back -/

/-- What becomes of an instance that comes back, from some point of the queue on. -/
inductive HandedOver (pool : Pool α) (item : α) (queue : List Nat) : Pool α → Prop
  | freed (hnobody : queue.filter pool.isWaiting = []) :
      HandedOver pool item queue
        { pool with queue := [], checkedOut := pool.checkedOut - 1, free := item :: pool.free }
  | sent (first : Nat) (rest : List Nat) (hsuffix : first :: rest <:+ queue)
      (hfirst : pool.isWaiting first = true)
      (hline : queue.filter pool.isWaiting = first :: rest.filter pool.isWaiting) :
      HandedOver pool item queue ({ pool with queue := rest }.setClaim first (.offered item))

theorem handedOver_handOver (pool : Pool α) (item : α) (queue : List Nat) :
    HandedOver pool item queue (pool.handOver item queue) := by
  induction queue with
  | nil => exact .freed rfl
  | cons first rest ih =>
      unfold handOver
      split
      next hqueued =>
        have hfirst : pool.isWaiting first = true := hqueued
        refine .sent first rest (List.suffix_refl _) hfirst ?_
        rw [List.filter_cons, if_pos hfirst]
      next hother =>
        have hfirst : ¬ pool.isWaiting first = true := hother
        have hfilter : (first :: rest).filter pool.isWaiting = rest.filter pool.isWaiting := by
          rw [List.filter_cons, if_neg hfirst]
        generalize pool.handOver item rest = after at ih
        cases ih with
        | freed hnobody => exact .freed (hfilter.trans hnobody)
        | sent next later hsuffix hnext hline =>
            exact .sent next later (hsuffix.trans (List.suffix_cons first rest)) hnext
              (hfilter.trans hline)

/-! ## The invariant -/

/-- Every claim that waits is in the queue, and all instances are out while there is one. -/
structure Queueing (pool : Pool α) : Prop where
  queued : ∀ ticket, pool.isWaiting ticket = true → ticket ∈ pool.queue
  nodup : pool.queue.Nodup
  entered : ∀ ticket ∈ pool.queue, ticket < pool.claims.length
  polled : ∀ ticket ∈ pool.queue, pool.claim ticket ≠ .unpolled
  exhausted : ∀ ticket, pool.isWaiting ticket = true →
    pool.free = [] ∧ pool.max ≤ pool.checkedOut

theorem queueing_new (max : Nat) (initial : List α) (create : Nat → α) :
    (Pool.new max initial create).Queueing where
  queued := by simp [Pool.new, isWaiting, claim, Claim.isQueued]
  nodup := List.nodup_nil
  entered := by simp [Pool.new]
  polled := by simp [Pool.new]
  exhausted := by simp [Pool.new, isWaiting, claim, Claim.isQueued]

theorem Queueing.mem_line (hqueueing : pool.Queueing) :
    ticket ∈ pool.line ↔ pool.isWaiting ticket = true := by
  unfold line
  rw [List.mem_filter]
  exact ⟨And.right, fun hwaiting => ⟨hqueueing.queued ticket hwaiting, hwaiting⟩⟩

theorem Queueing.nodup_line (hqueueing : pool.Queueing) : pool.line.Nodup :=
  hqueueing.nodup.filter _

theorem isWaiting_enter (pool : Pool α) (ticket : Nat) :
    pool.enter.2.isWaiting ticket = pool.isWaiting ticket := by
  rcases Nat.lt_trichotomy ticket pool.claims.length with hlt | rfl | hgt
  · unfold isWaiting
    rw [claim_enter_of_lt hlt]
  · unfold isWaiting
    rw [claim_enter_last]
    simp [claim, Claim.isQueued]
  · have hge : ¬ ticket < pool.claims.length + 1 := by omega
    have hge' : ¬ ticket < pool.claims.length := by omega
    simp [isWaiting, claim, enter, List.getD_eq_getElem?_getD, hge', Claim.isQueued,
      List.getElem?_append, show ticket - pool.claims.length ≠ 0 by omega]

theorem Queueing.enter (hqueueing : pool.Queueing) : pool.enter.2.Queueing where
  queued := by
    intro ticket hwaiting
    rw [isWaiting_enter] at hwaiting
    exact hqueueing.queued ticket hwaiting
  nodup := hqueueing.nodup
  entered := by
    intro ticket hmem
    have hlt := hqueueing.entered ticket hmem
    rw [length_enter]
    omega
  polled := by
    intro ticket hmem
    rw [claim_enter_of_lt (hqueueing.entered ticket hmem)]
    exact hqueueing.polled ticket hmem
  exhausted := by
    intro ticket hwaiting
    rw [isWaiting_enter] at hwaiting
    exact hqueueing.exhausted ticket hwaiting

theorem waits_enter (pool : Pool α) : pool.Waits pool.enter.2 := by
  refine .stays ⟨isWaiting_enter pool, ?_⟩
  have hsame : pool.enter.2.isWaiting = pool.isWaiting := funext (isWaiting_enter pool)
  unfold line
  rw [hsame]
  rfl

/-- A claim may stop waiting at any time. -/
theorem Queueing.settle (hqueueing : pool.Queueing) (hnew : new.isQueued = false)
    (hpolled : new.isUnpolled = false) : (pool.setClaim ticket new).Queueing := by
  have hwas : ∀ other, (pool.setClaim ticket new).isWaiting other = true →
      pool.isWaiting other = true := by
    intro other hwaiting
    by_cases heq : other = ticket
    · rw [heq, isWaiting_setClaim_self hnew] at hwaiting
      cases hwaiting
    · rwa [isWaiting_setClaim_of_ne heq] at hwaiting
  constructor
  · exact fun other hwaiting => hqueueing.queued other (hwas other hwaiting)
  · exact hqueueing.nodup
  · intro other hmem
    rw [length_setClaim]
    exact hqueueing.entered other hmem
  · intro other hmem
    by_cases heq : other = ticket
    · subst heq
      rw [claim_setClaim_of_lt (hqueueing.entered other hmem)]
      intro hunpolled
      simp [hunpolled, Claim.isUnpolled] at hpolled
    · rw [claim_setClaim_of_ne heq]
      exact hqueueing.polled other hmem
  · exact fun other hwaiting => hqueueing.exhausted other (hwas other hwaiting)

theorem line_settle (hnew : new.isQueued = false) :
    (pool.setClaim ticket new).line = pool.line.filter (· ≠ ticket) := by
  unfold line
  rw [List.filter_filter]
  apply List.filter_congr
  intro other _
  by_cases heq : other = ticket
  · rw [heq, isWaiting_setClaim_self hnew]
    simp
  · rw [isWaiting_setClaim_of_ne heq]
    simp [heq]

/-- A change of a claim that does not wait, to one that does not either, is not seen in the line. -/
theorem sameLine_settle (hold : pool.isWaiting ticket = false) (hnew : new.isQueued = false) :
    pool.SameLine (pool.setClaim ticket new) := by
  have hsame : ∀ other, (pool.setClaim ticket new).isWaiting other = pool.isWaiting other := by
    intro other
    by_cases heq : other = ticket
    · rw [heq, hold, isWaiting_setClaim_self hnew]
    · exact isWaiting_setClaim_of_ne heq new
  refine ⟨hsame, ?_⟩
  unfold line
  rw [funext hsame]
  rfl

theorem Queueing.handOver (hqueueing : pool.Queueing) (item : α) :
    (pool.release item).Queueing := by
  have hhanded := handedOver_handOver pool item pool.queue
  unfold release
  generalize pool.handOver item pool.queue = after at hhanded
  cases hhanded with
  | freed hnobody =>
      have hnone : ∀ ticket, pool.isWaiting ticket = false := by
        intro ticket
        rw [← Bool.not_eq_true]
        intro hwaiting
        have hmem : ticket ∈ pool.queue.filter pool.isWaiting :=
          List.mem_filter.mpr ⟨hqueueing.queued ticket hwaiting, hwaiting⟩
        rw [hnobody] at hmem
        cases hmem
      constructor
      · intro ticket hwaiting
        cases (hnone ticket).symm.trans hwaiting
      · exact List.nodup_nil
      · exact fun _ hmem => absurd hmem List.not_mem_nil
      · exact fun _ hmem => absurd hmem List.not_mem_nil
      · intro ticket hwaiting
        cases (hnone ticket).symm.trans hwaiting
  | sent first rest hsuffix hfirst hline =>
      have hsubset : ∀ ticket ∈ rest, ticket ∈ pool.queue :=
        fun ticket hmem => hsuffix.subset (List.mem_cons_of_mem first hmem)
      have hsettled : (pool.setClaim first (.offered item)).Queueing := hqueueing.settle rfl rfl
      constructor
      · -- Whoever waits now was in line behind the first.
        intro ticket hwaiting
        have hne : ticket ≠ first := by
          rintro rfl
          rw [isWaiting_setClaim_self rfl] at hwaiting
          cases hwaiting
        rw [isWaiting_setClaim_of_ne hne] at hwaiting
        have hmem : ticket ∈ pool.queue.filter pool.isWaiting :=
          List.mem_filter.mpr ⟨hqueueing.queued ticket hwaiting, hwaiting⟩
        rw [hline, List.mem_cons] at hmem
        exact (List.mem_filter.mp (hmem.resolve_left hne)).1
      · have hnodup := hqueueing.nodup.sublist hsuffix.sublist
        exact hnodup.of_cons
      · exact fun ticket hmem => hsettled.entered ticket (hsubset ticket hmem)
      · exact fun ticket hmem => hsettled.polled ticket (hsubset ticket hmem)
      · exact hsettled.exhausted

theorem Queueing.drop (hqueueing : pool.Queueing) (ticket : Nat) : (pool.drop ticket).Queueing := by
  have hsettled : (pool.setClaim ticket .gone).Queueing := hqueueing.settle rfl rfl
  unfold Pool.drop
  cases pool.claim ticket with
  | unpolled => exact hsettled
  | queued => exact hsettled
  | offered item => exact hsettled.handOver item
  | held item => exact hsettled.handOver item
  | gone => exact hqueueing

/-- An instance that comes back goes to the first of the line, or to the free ones when nobody
waits. -/
theorem release_spec (pool : Pool α) (item : α) :
    (∀ first rest, pool.line = first :: rest →
      (pool.release item).claim first = .offered item) ∧
    (pool.line = [] → (pool.release item).free = item :: pool.free) := by
  have hhanded := handedOver_handOver pool item pool.queue
  unfold release line
  generalize pool.handOver item pool.queue = after at hhanded
  cases hhanded with
  | freed hnobody =>
      refine ⟨fun first rest hline => ?_, fun _ => rfl⟩
      rw [hnobody] at hline
      cases hline
  | sent next later hsuffix hnext hsent =>
      constructor
      · intro first rest hline
        rw [hsent] at hline
        obtain ⟨rfl, -⟩ := List.cons.inj hline
        apply claim_setClaim_self
        change pool.claim next ≠ .gone
        simp [isWaiting_iff.mp hnext]
      · intro hline
        rw [hsent] at hline
        cases hline

theorem Queueing.waits_release (hqueueing : pool.Queueing) (item : α) :
    pool.Waits (pool.release item) := by
  have hhanded := handedOver_handOver pool item pool.queue
  unfold release
  generalize pool.handOver item pool.queue = after at hhanded
  cases hhanded with
  | freed hnobody => exact .stays ⟨fun _ => rfl, hnobody.symm⟩
  | sent first rest hsuffix hfirst hline =>
      have hclaim := isWaiting_iff.mp hfirst
      let popped : Pool α := { pool with queue := rest }
      have hnodup : (first :: rest).Nodup := hqueueing.nodup.sublist hsuffix.sublist
      have hrest : popped.line.filter (· ≠ first) = popped.line := by
        rw [List.filter_eq_self]
        intro other hmem
        have hother : other ∈ rest := (List.mem_filter.mp hmem).1
        simpa using ne_of_mem_of_not_mem hother (List.nodup_cons.mp hnodup).1
      refine .served first item hclaim ?_ ?_ ?_
      · apply claim_setClaim_self
        change pool.claim first ≠ .gone
        simp [hclaim]
      · intro other hne
        have hother : (popped.setClaim first (.offered item)).isWaiting other =
            popped.isWaiting other := isWaiting_setClaim_of_ne hne _
        exact hother
      · have hafter : (popped.setClaim first (.offered item)).line = popped.line :=
          (line_settle rfl).trans hrest
        rw [hafter]
        exact hline

/-! ## One event -/

/-- What is not seen in the line may come before any step. -/
theorem SameLine.waits {between : Pool α} (hsame : pool.SameLine between)
    (hunpolled : ∀ ticket, between.claim ticket = .unpolled → pool.claim ticket = .unpolled)
    (hwaits : between.Waits pool') : pool.Waits pool' := by
  have hqueued {ticket : Nat} (hclaim : between.claim ticket = .queued) :
      pool.claim ticket = .queued := by
    rw [← isWaiting_iff, ← hsame.waiting, isWaiting_iff]
    exact hclaim
  cases hwaits with
  | stays hstays => exact .stays (hsame.trans hstays)
  | joins ticket hbefore hafter hothers hline =>
      rw [hsame.line] at hline
      refine .joins ticket (hunpolled ticket hbefore) hafter (fun other hne => ?_) hline
      rw [hothers other hne, hsame.waiting]
  | served ticket item hbefore hafter hothers hline =>
      rw [hsame.line] at hline
      refine .served ticket item (hqueued hbefore) hafter (fun other hne => ?_) hline
      rw [hothers other hne, hsame.waiting]
  | leaves ticket hbefore hafter hothers hline =>
      rw [hsame.line] at hline
      refine .leaves ticket (hqueued hbefore) hafter (fun other hne => ?_) hline
      rw [hothers other hne, hsame.waiting]

/-- A claim that ends without having waited is not seen in the line, whatever happens then. -/
theorem Waits.after_end (hold : pool.isWaiting ticket = false)
    (hwaits : (pool.setClaim ticket .gone).Waits pool') : pool.Waits pool' := by
  refine (sameLine_settle hold rfl).waits (fun other hunpolled => ?_) hwaits
  have hne : other ≠ ticket := by
    rintro rfl
    cases (claim_setClaim_gone pool other).symm.trans hunpolled
  rwa [claim_setClaim_of_ne hne] at hunpolled

theorem Queueing.waits_drop (hqueueing : pool.Queueing) (ticket : Nat) :
    pool.Waits (pool.drop ticket) := by
  have hsettled : (pool.setClaim ticket .gone).Queueing := hqueueing.settle rfl rfl
  unfold Pool.drop
  cases hclaim : pool.claim ticket with
  | unpolled =>
      exact .stays (sameLine_settle (isWaiting_eq_false hclaim rfl) rfl)
  | queued =>
      exact .leaves ticket hclaim (claim_setClaim_gone pool ticket)
        (fun other hne => isWaiting_setClaim_of_ne hne _) (line_settle rfl)
  | offered item =>
      exact .after_end (isWaiting_eq_false hclaim rfl) (hsettled.waits_release item)
  | held item =>
      exact .after_end (isWaiting_eq_false hclaim rfl) (hsettled.waits_release item)
  | gone => exact .refl pool

/-- What a claim that ends leaves behind goes to the first of the line, or to the free ones. -/
theorem drop_spec (hitem : (pool.claim ticket).item? = some item) :
    (∀ first rest, pool.line = first :: rest →
      (pool.drop ticket).claim first = .offered item) ∧
    (pool.line = [] → (pool.drop ticket).free = item :: pool.free) := by
  have hreleased := release_spec (pool.setClaim ticket .gone) item
  unfold Pool.drop
  cases hclaim : pool.claim ticket with
  | offered other =>
      obtain rfl : other = item := by simpa [hclaim, Claim.item?] using hitem
      rwa [(sameLine_settle (isWaiting_eq_false hclaim rfl) rfl).line] at hreleased
  | held other =>
      obtain rfl : other = item := by simpa [hclaim, Claim.item?] using hitem
      rwa [(sameLine_settle (isWaiting_eq_false hclaim rfl) rfl).line] at hreleased
  | _ => simp [hclaim, Claim.item?] at hitem

/-- A first poll that finds an instance finds nobody waiting; another one queues up. -/
theorem Queueing.acquire_cases (hqueueing : pool.Queueing) (ticket : Nat) :
    (∃ (after : Pool α) (item : α), pool.acquire ticket = after.setClaim ticket (.held item) ∧
      (∀ other, pool.isWaiting other = false) ∧ after.claims = pool.claims ∧
      after.queue = pool.queue) ∨
    (pool.acquire ticket =
        ({ pool with queue := pool.queue ++ [ticket] } : Pool α).setClaim ticket .queued ∧
      pool.free = [] ∧ pool.max ≤ pool.checkedOut) := by
  unfold Pool.acquire
  split
  next item rest hfree =>
    let taken : Pool α := { pool with free := rest, checkedOut := pool.checkedOut + 1 }
    refine .inl ⟨taken, item, rfl, fun other => ?_, rfl, rfl⟩
    rw [← Bool.not_eq_true]
    intro hwaiting
    have hempty := (hqueueing.exhausted other hwaiting).1
    rw [hfree] at hempty
    cases hempty
  next hfree =>
    split
    next hroom =>
      let made : Pool α :=
        { pool with checkedOut := pool.checkedOut + 1, created := pool.created + 1 }
      refine .inl ⟨made, pool.create pool.created, rfl, fun other => ?_, rfl, rfl⟩
      rw [← Bool.not_eq_true]
      intro hwaiting
      have hfull := (hqueueing.exhausted other hwaiting).2
      omega
    next hfull => exact .inr ⟨rfl, hfree, Nat.le_of_not_lt hfull⟩

/-- Whoever is served at once finds nobody waiting, so the counters may change. -/
theorem Queueing.serve {after : Pool α} (hqueueing : pool.Queueing)
    (hnobody : ∀ other, pool.isWaiting other = false) (hclaims : after.claims = pool.claims)
    (hqueue : after.queue = pool.queue) (ticket : Nat) (item : α) :
    (after.setClaim ticket (.held item)).Queueing ∧
      pool.SameLine (after.setClaim ticket (.held item)) := by
  have hwaiting : after.isWaiting = pool.isWaiting := by
    unfold isWaiting claim
    rw [hclaims]
  have hafter : after.Queueing := by
    refine ⟨?_, ?_, ?_, ?_, ?_⟩
    · rw [hwaiting, hqueue]
      exact hqueueing.queued
    · rw [hqueue]
      exact hqueueing.nodup
    · rw [hqueue, hclaims]
      exact hqueueing.entered
    · unfold claim
      rw [hqueue, hclaims]
      exact hqueueing.polled
    · intro other hother
      rw [hwaiting, hnobody] at hother
      cases hother
  have hsame : pool.SameLine after := by
    refine ⟨fun other => by rw [hwaiting], ?_⟩
    unfold line
    rw [hwaiting, hqueue]
  have hold : after.isWaiting ticket = false := by rw [hwaiting, hnobody]
  exact ⟨hafter.settle rfl rfl, hsame.trans (sameLine_settle hold rfl)⟩

theorem Queueing.acquire (hqueueing : pool.Queueing) (hunpolled : pool.claim ticket = .unpolled) :
    (pool.acquire ticket).Queueing ∧ pool.Waits (pool.acquire ticket) := by
  rcases hqueueing.acquire_cases ticket with
    ⟨after, item, hacquired, hnobody, hclaims, hqueue⟩ | ⟨hacquired, hfree, hfull⟩
  · obtain ⟨hserved, hsame⟩ := hqueueing.serve hnobody hclaims hqueue ticket item
    rw [hacquired]
    exact ⟨hserved, .stays hsame⟩
  · let queued : Pool α := { pool with queue := pool.queue ++ [ticket] }
    have hnotGone : queued.claim ticket ≠ .gone := by
      change pool.claim ticket ≠ .gone
      simp [hunpolled]
    have hself : (queued.setClaim ticket .queued).claim ticket = .queued :=
      claim_setClaim_self hnotGone _
    have hothers : ∀ other, other ≠ ticket →
        (queued.setClaim ticket .queued).claim other = pool.claim other :=
      fun other hne => claim_setClaim_of_ne hne _
    have hmem : ticket ∉ pool.queue := fun hmem => hqueueing.polled ticket hmem hunpolled
    rw [hacquired]
    constructor
    · constructor
      · intro other hwaiting
        by_cases heq : other = ticket
        · exact List.mem_append_right _ (List.mem_singleton.mpr heq)
        · rw [isWaiting, hothers other heq] at hwaiting
          exact List.mem_append_left _ (hqueueing.queued other hwaiting)
      · exact List.nodup_append.mpr ⟨hqueueing.nodup, List.nodup_singleton ticket, by
          intro first hfirst second hsecond heq
          rw [List.mem_singleton.mp hsecond] at heq
          exact hmem (heq ▸ hfirst)⟩
      · intro other hother
        rw [length_setClaim]
        rcases List.mem_append.mp hother with hold | hnew
        · exact hqueueing.entered other hold
        · rw [List.mem_singleton.mp hnew]
          exact lt_length_of_claim hnotGone
      · intro other hother
        by_cases heq : other = ticket
        · rw [heq, hself]
          simp
        · rw [hothers other heq]
          rcases List.mem_append.mp hother with hold | hnew
          · exact hqueueing.polled other hold
          · exact absurd (List.mem_singleton.mp hnew) heq
      · intro other _
        exact ⟨hfree, hfull⟩
    · refine .joins ticket hunpolled hself (fun other hne => ?_) ?_
      · unfold isWaiting
        rw [hothers other hne]
      · have hkept : pool.queue.filter (queued.setClaim ticket .queued).isWaiting =
            pool.queue.filter pool.isWaiting := by
          apply List.filter_congr
          intro other hother
          have hne : other ≠ ticket := ne_of_mem_of_not_mem hother hmem
          unfold isWaiting
          rw [hothers other hne]
        have hlast : (queued.setClaim ticket .queued).isWaiting ticket = true :=
          isWaiting_iff.mpr hself
        change (pool.queue ++ [ticket]).filter _ = _
        rw [List.filter_append, hkept, List.filter_singleton, hlast]
        rfl

theorem Queueing.poll (hqueueing : pool.Queueing) (ticket : Nat) (cancelled : Bool) :
    (pool.poll ticket cancelled).2.Queueing ∧ pool.Waits (pool.poll ticket cancelled).2 := by
  have hdrop : (pool.drop ticket).Queueing ∧ pool.Waits (pool.drop ticket) :=
    ⟨hqueueing.drop ticket, hqueueing.waits_drop ticket⟩
  unfold Pool.poll
  cases hclaim : pool.claim ticket with
  | held item => exact ⟨hqueueing, .refl pool⟩
  | gone => exact ⟨hqueueing, .refl pool⟩
  | unpolled =>
      cases cancelled with
      | true => exact hdrop
      | false => exact hqueueing.acquire hclaim
  | queued =>
      cases cancelled with
      | true => exact hdrop
      | false => exact ⟨hqueueing, .refl pool⟩
  | offered item =>
      cases cancelled with
      | true => exact hdrop
      | false =>
          have hsame : pool.SameLine (pool.setClaim ticket (.held item)) :=
            sameLine_settle (isWaiting_eq_false hclaim rfl) rfl
          exact ⟨hqueueing.settle rfl rfl, .stays hsame⟩

/-- A poll that is answered with an instance is not seen in the line. -/
theorem Queueing.sameLine_of_held (hqueueing : pool.Queueing) {cancelled : Bool}
    (hheld : (pool.poll ticket cancelled).1 = .held item) :
    pool.SameLine (pool.poll ticket cancelled).2 := by
  unfold Pool.poll at hheld ⊢
  cases hclaim : pool.claim ticket with
  | held other => exact .refl pool
  | gone => exact .refl pool
  | unpolled =>
      cases cancelled with
      | true =>
          rw [hclaim] at hheld
          cases hheld
      | false =>
          rcases hqueueing.acquire_cases ticket with
            ⟨after, other, hacquired, hnobody, hclaims, hqueue⟩ | ⟨hacquired, -, -⟩
          · simp only [hacquired]
            exact (hqueueing.serve hnobody hclaims hqueue ticket other).2
          · have hwaits : (pool.acquire ticket).claim ticket = .queued := by
              rw [hacquired]
              apply claim_setClaim_self
              change pool.claim ticket ≠ .gone
              simp [hclaim]
            simp [hclaim, answer, hwaits] at hheld
  | queued =>
      rw [hclaim] at hheld
      cases cancelled <;> cases hheld
  | offered other =>
      rw [hclaim] at hheld
      cases cancelled with
      | true => cases hheld
      | false => exact sameLine_settle (isWaiting_eq_false hclaim rfl) rfl

/-- Whoever comes while others wait has to wait too. -/
theorem Queueing.newcomer (hqueueing : pool.Queueing) (hwaiting : pool.isWaiting other = true)
    (hunpolled : pool.claim ticket = .unpolled) (cancelled : Bool) :
    (pool.poll ticket cancelled).2.claim ticket = if cancelled then .gone else .queued := by
  unfold Pool.poll
  rw [hunpolled]
  cases cancelled with
  | true => exact pool.claim_drop_self ticket
  | false =>
      obtain ⟨hfree, hfull⟩ := hqueueing.exhausted other hwaiting
      change (pool.acquire ticket).claim ticket = .queued
      unfold Pool.acquire
      rw [hfree]
      simp only [Nat.not_lt.mpr hfull, if_false]
      apply claim_setClaim_self
      change pool.claim ticket ≠ .gone
      simp [hunpolled]

/-- The length of the line is the number of claims that wait. -/
theorem Queueing.length_line (hqueueing : pool.Queueing) :
    pool.line.length = (pool.claims.filter Claim.isQueued).length := by
  have hclaims : pool.claims = (List.range pool.claims.length).map pool.claim := by
    apply List.ext_getElem (by simp)
    intro i hi hi'
    simp [claim, List.getD_eq_getElem?_getD, hi]
  have hperm : pool.line.Perm ((List.range pool.claims.length).filter pool.isWaiting) := by
    rw [List.perm_ext_iff_of_nodup hqueueing.nodup_line (List.nodup_range.filter _)]
    intro ticket
    rw [hqueueing.mem_line, List.mem_filter, List.mem_range]
    exact ⟨fun hwaiting => ⟨lt_length_of_isWaiting hwaiting, hwaiting⟩, And.right⟩
  rw [hperm.length_eq]
  conv_rhs => rw [hclaims, List.filter_map, List.length_map]
  rfl

end Pool
end DecisionLogic
