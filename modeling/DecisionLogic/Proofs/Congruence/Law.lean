import DecisionLogic.Proofs.Congruence.Basic
import DecisionLogic.Proofs.Cancellation.Heeding

/-!
# Laws that every poll keeps

A law says what a poll may do to the world and which numbers then count as drawn, and how a
computation may fail.  A computation keeps it when all of its polls do, in whatever worlds and
however often it is polled.  `Law.congruence` is the congruence of the computations that keep a law;
it does not look at the second computation.
-/

namespace DecisionLogic

variable {α β : Type}

structure Law where
  Step : World → World → Multiset Nat → Prop
  Fails : Failure → Prop
  refl (w : World) : Step w w 0
  trans {w w' w'' : World} {drawn more : Multiset Nat} :
    Step w w' drawn → Step w' w'' more → Step w w'' (drawn + more)
  cancelled : Fails .cancelled

/-- Nothing is asked of a poll. -/
def Law.free : Law where
  Step _ _ _ := True
  Fails _ := True
  refl _ := trivial
  trans _ _ := trivial
  cancelled := trivial

/-- From the world `w` on, the moment was reached in one poll that kept the law.  Every later poll
keeps it too, and if the computation ends, it ends as the condition says. -/
inductive Moment.Keeps (law : Law) :
    (Multiset Nat → Except Failure α → Prop) → World → Moment α → Prop
  | finished {condition : Multiset Nat → Except Failure α → Prop} {w w' : World}
      {drawn : Multiset Nat} {result : Except Failure α} (hstep : law.Step w w' drawn)
      (hresult : condition drawn result) : Keeps law condition w (.finished w' result)
  | waiting {condition : Multiset Nat → Except Failure α → Prop} {w w' : World}
      {drawn : Multiset Nat} {ready : World → Bool} {rest : World → Moment α}
      (hstep : law.Step w w' drawn)
      (hrest : ∀ later, Keeps law (fun more => condition (drawn + more)) later (rest later)) :
      Keeps law condition w (.waiting w' ready rest)

def Computation.Keeps (law : Law) (condition : Multiset Nat → Except Failure α → Prop)
    (computation : Computation α) : Prop :=
  ∀ world, (computation world).Keeps law condition world

variable {law : Law}

namespace Moment.Keeps

variable {condition : Multiset Nat → Except Failure α → Prop}
  {condition' : Multiset Nat → Except Failure β → Prop} {w : World} {m : Moment α}

theorem mono {weaker : Multiset Nat → Except Failure α → Prop} (hkeeps : m.Keeps law condition w)
    (hweaker : ∀ drawn result, condition drawn result → weaker drawn result) :
    m.Keeps law weaker w := by
  induction hkeeps generalizing weaker with
  | finished hstep hresult => exact .finished hstep (hweaker _ _ hresult)
  | waiting hstep hrest ih =>
      exact .waiting hstep fun later => ih later fun more => hweaker _

theorem weaken {law' : Law} (hkeeps : m.Keeps law condition w)
    (hle : ∀ w w' drawn, law.Step w w' drawn → law'.Step w w' drawn) :
    m.Keeps law' condition w := by
  induction hkeeps with
  | finished hstep hresult => exact .finished (hle _ _ _ hstep) hresult
  | waiting hstep hrest ih => exact .waiting (hle _ _ _ hstep) ih

theorem rebase {u : World} {drawn : Multiset Nat} (hstep : law.Step u w drawn)
    (hkeeps : m.Keeps law (fun more => condition (drawn + more)) w) : m.Keeps law condition u := by
  cases hkeeps with
  | finished hstep' hresult => exact .finished (law.trans hstep hstep') hresult
  | waiting hstep' hrest =>
      refine .waiting (law.trans hstep hstep') fun later => ?_
      refine (hrest later).mono fun more result hresult => ?_
      rwa [add_assoc]

theorem poll (hkeeps : m.Keeps law condition w) :
    ∃ drawn, law.Step w m.world drawn ∧
      ∀ later, (m.poll later).Keeps law (fun more => condition (drawn + more)) later := by
  cases hkeeps with
  | finished hstep hresult =>
      refine ⟨_, hstep, fun later => .finished (law.refl later) ?_⟩
      rwa [add_zero]
  | @waiting _ _ w' drawn ready rest hstep hrest =>
      refine ⟨drawn, hstep, fun later => ?_⟩
      change (if ready later then rest later else .waiting later ready rest).Keeps law _ later
      split
      · exact hrest later
      · refine .waiting (law.refl later) fun next => ?_
        simpa only [zero_add] using hrest next

theorem andThen {next : α → Computation β} (hkeeps : m.Keeps law condition w)
    (hnext : ∀ drawn x, condition drawn (.ok x) →
      (next x).Keeps law fun more => condition' (drawn + more))
    (herror : ∀ drawn failure, condition drawn (.error failure) →
      condition' drawn (.error failure)) :
    (m.andThen next).Keeps law condition' w := by
  induction hkeeps generalizing condition' with
  | @finished _ _ _ _ result hstep hresult =>
      cases result with
      | ok x => exact rebase hstep (hnext _ x hresult _)
      | error failure => exact .finished hstep (herror _ failure hresult)
  | waiting hstep hrest ih =>
      refine .waiting hstep fun later => ?_
      apply ih later
      · intro drawn x hresult
        simp only [← add_assoc]
        exact hnext _ x hresult
      · intro drawn failure
        exact herror _ failure

theorem mapResult {f : Except Failure α → Except Failure β} (hkeeps : m.Keeps law condition w)
    (hresult : ∀ drawn result, condition drawn result → condition' drawn (f result)) :
    (m.mapResult f).Keeps law condition' w := by
  induction hkeeps generalizing condition' with
  | finished hstep h => exact .finished hstep (hresult _ _ h)
  | waiting hstep hrest ih =>
      exact .waiting hstep fun later => ih later fun more => hresult _

theorem guarded (hkeeps : m.Keeps law condition w)
    (hcancelled : ∀ drawn, condition drawn (.error .cancelled)) :
    m.guarded.Keeps law condition w := by
  induction hkeeps with
  | finished hstep hresult => exact .finished hstep hresult
  | waiting hstep hrest ih =>
      refine .waiting hstep fun later => ?_
      split
      · exact .finished (law.refl later) (hcancelled _)
      · exact ih later fun more => hcancelled _

/-! ### Joins -/

section Joins

variable {others joined : Multiset Nat → Except Failure (List α) → Prop}

/-- The others have made their poll while the first computation waits. -/
theorem besideWaiting {m : Moment (List α)} {ready : World → Bool}
    {resume : World → Computation (List α) → Moment (List α)} (hkeeps : m.Keeps law others w)
    (hresume : ∀ (drawn : Multiset Nat) (later : World) (c : Computation (List α)),
      c.Keeps law (fun more => others (drawn + more)) →
        (resume later c).Keeps law (fun more => joined (drawn + more)) later)
    (herror : ∀ drawn failure, others drawn (.error failure) → joined drawn (.error failure)) :
    (m.besideWaiting ready resume).Keeps law joined w := by
  induction hkeeps generalizing joined with
  | @finished _ _ w' drawn result hstep hresult =>
      cases result with
      | error failure => exact .finished hstep (herror _ failure hresult)
      | ok xs =>
          refine .waiting hstep fun later => hresume drawn later _ fun next => ?_
          refine .finished (law.refl next) ?_
          rwa [add_zero]
  | @waiting others w w' drawn ready' rest hstep hrest ih =>
      refine .waiting hstep fun later => ?_
      split
      · apply hresume
        intro next
        dsimp only
        split
        · exact hrest next
        · refine .waiting (law.refl next) fun last => ?_
          simpa only [zero_add] using hrest last
      · -- Only the others go on; what they draw is added to what was drawn before.
        apply ih later
        · intro more next c hc
          have hmore := hresume (drawn + more) next c
          simp only [add_assoc] at hmore
          exact hmore hc
        · intro more failure
          exact herror _ failure

theorem beside {rest : Computation (List α)} (hkeeps : m.Keeps law condition w)
    (hothers : rest.Keeps law others)
    (hok : ∀ drawn more x xs, condition drawn (.ok x) → others more (.ok xs) →
      joined (drawn + more) (.ok (x :: xs)))
    (hfirst : ∀ drawn more failure, condition drawn (.error failure) →
      joined (drawn + more) (.error failure))
    (hlater : ∀ drawn more failure, others more (.error failure) →
      joined (drawn + more) (.error failure)) :
    (m.beside rest).Keeps law joined w := by
  induction hkeeps generalizing others joined rest with
  | @finished condition w w' drawn result hstep hresult =>
      cases result with
      | error failure =>
          refine .finished hstep ?_
          rw [← add_zero drawn]
          exact hfirst _ _ failure hresult
      | ok x =>
          refine rebase hstep ((hothers w').mapResult ?_)
          intro more result' hresult'
          cases result' with
          | ok xs => exact hok _ _ x xs hresult hresult'
          | error failure => exact hlater _ _ failure hresult'
  | @waiting condition w w' drawn ready next hstep hrest ih =>
      apply rebase hstep
      refine besideWaiting (hothers w') ?_ fun more failure => hlater _ _ failure
      intro more later c hc
      -- What was drawn before belongs to both parts; only its sum matters.
      refine ih later hc ?_ ?_ ?_
      · intro first second x xs hx hxs
        have hjoined := hok _ _ x xs hx hxs
        rwa [add_add_add_comm, add_assoc] at hjoined
      · intro first second failure hfailure
        have hjoined := hfirst _ (more + second) failure hfailure
        rwa [add_add_add_comm, add_assoc] at hjoined
      · intro first second failure hfailure
        have hjoined := hlater (drawn + first) _ failure hfailure
        rwa [add_add_add_comm, add_assoc] at hjoined

end Joins

end Moment.Keeps

/-! ## The congruence of a law -/

/-- A value that is read somehow, or a failure that may happen. -/
inductive Law.Allows (law : Law) (R : Reading α β) : Multiset Nat → Except Failure α → Prop
  | ok {drawn : Multiset Nat} {x : α} (y : β) (hreads : R drawn x y) : Allows law R drawn (.ok x)
  | error {drawn : Multiset Nat} {failure : Failure} (hfails : law.Fails failure) :
      Allows law R drawn (.error failure)

namespace Computation.Keeps

variable {γ δ : Type} {R : Reading α β} {S : Reading γ δ}

theorem bind {c : Computation α} {next : α → Computation γ} (hkeeps : c.Keeps law (law.Allows R))
    (hnext : ∀ drawn x y, R drawn x y → (next x).Keeps law (law.Allows (S.after drawn))) :
    (c >>= next).Keeps law (law.Allows S) := by
  intro w
  refine (hkeeps w).andThen ?_ ?_
  · intro drawn x hallows
    cases hallows with
    | ok y hreads =>
        intro w'
        refine (hnext _ x y hreads w').mono fun more result hresult => ?_
        cases hresult with
        | ok y' hreads' => exact .ok y' hreads'
        | error hfails => exact .error hfails
  · intro drawn failure hallows
    cases hallows with
    | error hfails => exact .error hfails

theorem joinAll {cs : List (Computation α)} {ds : List (Computation β)}
    (hkeeps : List.Forall₂ (fun c _ => c.Keeps law (law.Allows R)) cs ds) :
    (joinAll cs).Keeps law (law.Allows R.Each) := by
  induction hkeeps with
  | nil => exact fun w => .finished (law.refl w) (.ok [] .nil)
  | cons hfirst _ ih =>
      intro w
      refine (hfirst w).beside ih ?_ ?_ ?_
      · intro drawn more x xs hx hxs
        cases hx with
        | ok y hreads =>
            cases hxs with
            | ok y' hreads' => exact .ok _ (.cons hreads hreads')
      · intro drawn more failure hx
        cases hx with
        | error hfails => exact .error hfails
      · intro drawn more failure hxs
        cases hxs with
        | error hfails => exact .error hfails

theorem cancellable {c : Computation α} (hkeeps : c.Keeps law (law.Allows R)) :
    c.cancellable.Keeps law (law.Allows R) := by
  intro w
  unfold Computation.cancellable
  split
  · exact .finished (law.refl w) (.error law.cancelled)
  · exact (hkeeps w).guarded fun _ => .error law.cancelled

end Computation.Keeps

/-- How the law sees that an identifier is drawn. -/
def Law.Draws (law : Law) : Reading PointId PointId :=
  fun drawn id _ => ∃ w : World, id = .fresh w.nextPoint ∧
    law.Step w { w with nextPoint := w.nextPoint + 1 } drawn

/-- Identifiers may be drawn under the law. -/
def Law.Supplies (law : Law) : Prop :=
  ∀ w : World, ∃ drawn, law.Step w { w with nextPoint := w.nextPoint + 1 } drawn

def Law.congruence (law : Law) (hsupplies : law.Supplies) : Congruence where
  Rel R c _ := c.Keeps law (law.Allows R)
  Fails failure _ := law.Fails failure
  Draws := law.Draws
  mono hkeeps hle := fun w => (hkeeps w).mono fun drawn result hresult => by
    cases hresult with
    | ok y hreads => exact .ok y (hle _ _ _ hreads)
    | error hfails => exact .error hfails
  pure hreads := fun w => .finished (law.refl w) (.ok _ hreads)
  fail hfails := fun w => .finished (law.refl w) (.error hfails)
  bind := .bind
  joinAll := .joinAll
  mapFailure hkeeps hrename := fun w => (hkeeps w).mapResult fun drawn result hresult => by
    cases hresult with
    | ok y hreads => exact .ok y hreads
    | error hfails => exact .error (hrename _ .cancelled hfails)
  cancellable := .cancellable
  checkCancelled := by
    intro w
    refine .finished (law.refl w) ?_
    split
    · exact .error law.cancelled
    · exact .ok () trivial
  freshPoint := by
    intro w
    obtain ⟨drawn, hstep⟩ := hsupplies w
    exact .finished hstep (.ok (.fresh w.nextPoint) ⟨w, rfl, hstep⟩)

/-! ## Jobs -/

/-- What is left of a job keeps the law. -/
inductive Progress.Keeps (law : Law) (condition : Multiset Nat → Except Failure α → Prop) :
    Progress α → Prop
  | unstarted {computation : Computation α} (hkeeps : computation.Keeps law condition) :
      Keeps law condition (.unstarted computation)
  | running {moment : Moment α} {drawn : Multiset Nat}
      (hkeeps : ∀ later,
        (moment.poll later).Keeps law (fun more => condition (drawn + more)) later) :
      Keeps law condition (.running moment)
  | over : Keeps law condition .over

/-- An answer that ends the job is one that the condition allows. -/
def JobAnswer.Meets (condition : Multiset Nat → Except Failure α → Prop) (answer : JobAnswer α) :
    Prop :=
  ∀ result, answer = .finished result → ∃ drawn, condition drawn result

namespace Job

variable {condition : Multiset Nat → Except Failure α → Prop} {job : Job α}

theorem settle_keeps {drawn : Multiset Nat} {m : Moment α} {w : World}
    (hkeeps : m.Keeps law (fun more => condition (drawn + more)) w) :
    (∃ more, law.Step w (settle m).2.2 more) ∧ (settle m).2.1.progress.Keeps law condition ∧
      (settle m).1.Meets condition := by
  obtain ⟨more, hstep, hpoll⟩ := hkeeps.poll
  cases hkeeps with
  | finished _ hresult =>
      refine ⟨⟨more, hstep⟩, .over, fun result hanswer => ?_⟩
      cases hanswer
      exact ⟨_, hresult⟩
  | waiting _ hrest =>
      simp only [← add_assoc] at hpoll
      exact ⟨⟨more, hstep⟩, .running hpoll, nofun⟩

/-- A poll keeps the law, unless the job is over and nothing happens. -/
theorem poll_keeps (hkeeps : job.progress.Keeps law condition) (world : World) :
    ((job.poll world).2.2 = world ∨
        ∃ drawn, law.Step { world with bag := job.bag, cancelled := job.cancelled }
          (job.poll world).2.2 drawn) ∧
      (job.poll world).2.1.progress.Keeps law condition ∧ (job.poll world).1.Meets condition := by
  unfold poll
  cases hprogress : job.progress with
  | unstarted computation =>
      rw [hprogress] at hkeeps
      cases hkeeps with
      | unstarted hcomputation =>
          have hfirst := hcomputation { world with bag := job.bag, cancelled := job.cancelled }
          have hnone : condition = fun more => condition (0 + more) := by simp only [zero_add]
          rw [hnone] at hfirst
          obtain ⟨hstep, hlater⟩ := settle_keeps hfirst
          exact ⟨.inr hstep, hlater⟩
  | running moment =>
      rw [hprogress] at hkeeps
      cases hkeeps with
      | running hmoment =>
          obtain ⟨hstep, hlater⟩ := settle_keeps (hmoment _)
          exact ⟨.inr hstep, hlater⟩
  | _ =>
      refine ⟨.inl rfl, ?_, nofun⟩
      rw [hprogress]
      exact .over

theorem Reached.keeps {computation : Computation α} (hreached : Reached computation job)
    (hkeeps : computation.Keeps law condition) : job.progress.Keeps law condition := by
  induction hreached with
  | new cancelled => exact .unstarted hkeeps
  | share _ _ ih => exact ih
  | poll _ world ih => exact (poll_keeps ih world).2.1
  | cancel _ ih => exact ih
  | drop _ _ => exact .over

end Job

/-- Without waiting, a computation ends as it would by itself, or it is refused. -/
theorem Computation.Keeps.now {condition : Multiset Nat → Except Failure α → Prop}
    {computation : Computation α} (hkeeps : computation.Keeps law condition) (w : World) :
    ∃ drawn, law.Step w (computation.now.run.run w).2 drawn ∧
      ((computation.now.run.run w).1 = .error .notSynchronous ∨
        condition drawn (computation.now.run.run w).1) := by
  have hfirst := hkeeps w
  unfold Computation.now
  rw [ExceptT.run_mk, StateT.run]
  cases hmoment : computation w with
  | finished world result =>
      rw [hmoment] at hfirst
      cases hfirst with
      | finished hstep hresult => exact ⟨_, hstep, .inr hresult⟩
  | waiting world ready rest =>
      rw [hmoment] at hfirst
      cases hfirst with
      | waiting hstep _ => exact ⟨_, hstep, .inl rfl⟩

end DecisionLogic
