import DecisionLogic.Proofs.Congruence.Basic

/-!
# Computations that fail differently

Two computations track each other when every poll does the same to the world and both wait for the
same or both end, with values that are related or with failures that are.  Everything that a
computation is made of is kept in step, so two runs can be compared that differ in nothing but their
failures.
-/

namespace DecisionLogic

variable {α β γ δ : Type} {F G : Failure → Failure → Prop} {R : α → β → Prop} {S : γ → δ → Prop}

inductive Tracked (F : Failure → Failure → Prop) (R : α → β → Prop) :
    Except Failure α → Except Failure β → Prop
  | ok {x : α} {y : β} (hvalues : R x y) : Tracked F R (.ok x) (.ok y)
  | error {f g : Failure} (hfailures : F f g) : Tracked F R (.error f) (.error g)

inductive Moment.Tracks (F : Failure → Failure → Prop) (R : α → β → Prop) :
    Moment α → Moment β → Prop
  | finished (world : World) {result : Except Failure α} {result' : Except Failure β}
      (hresult : Tracked F R result result') :
      Tracks F R (.finished world result) (.finished world result')
  | waiting (world : World) (ready : World → Bool) {rest : World → Moment α}
      {rest' : World → Moment β} (hrest : ∀ later, Tracks F R (rest later) (rest' later)) :
      Tracks F R (.waiting world ready rest) (.waiting world ready rest')

def Computation.Tracks (F : Failure → Failure → Prop) (R : α → β → Prop) (c : Computation α)
    (d : Computation β) : Prop :=
  ∀ world, (c world).Tracks F R (d world)

theorem Tracked.mono {R' : α → β → Prop} {result : Except Failure α} {result' : Except Failure β}
    (htracked : Tracked F R result result') (hfailures : ∀ f g, F f g → G f g)
    (hvalues : ∀ x y, R x y → R' x y) : Tracked G R' result result' := by
  cases htracked with
  | ok h => exact .ok (hvalues _ _ h)
  | error h => exact .error (hfailures _ _ h)

namespace Moment.Tracks

variable {m : Moment α} {n : Moment β}

theorem mapResult {f : Except Failure α → Except Failure γ}
    {f' : Except Failure β → Except Failure δ} (htracks : m.Tracks F R n)
    (hmap : ∀ result result', Tracked F R result result' → Tracked G S (f result) (f' result')) :
    (m.mapResult f).Tracks G S (n.mapResult f') := by
  induction htracks with
  | finished world hresult => exact .finished world (hmap _ _ hresult)
  | waiting world ready _ ih => exact .waiting world ready ih

theorem mono {R' : α → β → Prop} (htracks : m.Tracks F R n) (hfailures : ∀ f g, F f g → G f g)
    (hvalues : ∀ x y, R x y → R' x y) : m.Tracks G R' n := by
  induction htracks with
  | finished world hresult => exact .finished world (hresult.mono hfailures hvalues)
  | waiting world ready _ ih => exact .waiting world ready ih

/-- A poll of both while they wait goes on with both or comes too early for both. -/
theorem again {ready : World → Bool} {rest : World → Moment α} {rest' : World → Moment β}
    (hrest : ∀ later, (rest later).Tracks F R (rest' later)) (later : World) :
    (if ready later then rest later else .waiting later ready rest).Tracks F R
      (if ready later then rest' later else .waiting later ready rest') := by
  split
  · exact hrest later
  · exact .waiting later ready hrest

theorem poll (htracks : m.Tracks F R n) (later : World) :
    (m.poll later).Tracks F R (n.poll later) := by
  cases htracks with
  | finished _ hresult => exact Moment.Tracks.finished later hresult
  | waiting _ ready hrest => exact again hrest later

theorem andThen {next : α → Computation γ} {next' : β → Computation δ} (htracks : m.Tracks F R n)
    (hnext : ∀ x y, R x y → (next x).Tracks F S (next' y)) :
    (m.andThen next).Tracks F S (n.andThen next') := by
  induction htracks with
  | finished world hresult =>
      cases hresult with
      | ok hvalues => exact hnext _ _ hvalues world
      | error hfailures => exact .finished world (.error hfailures)
  | waiting world ready _ ih => exact .waiting world ready ih

theorem guarded (htracks : m.Tracks F R n) (hcancelled : F .cancelled .cancelled) :
    m.guarded.Tracks F R n.guarded := by
  induction htracks with
  | finished world hresult => exact .finished world hresult
  | waiting world ready _ ih =>
      refine .waiting world _ fun later => ?_
      split
      · exact .finished later (.error hcancelled)
      · exact ih later

/-- The first computations wait while the others have made their poll. -/
theorem besideWaiting {m : Moment (List α)} {n : Moment (List β)} {Q : List α → List β → Prop}
    {W : List α → List β → Prop} {ready : World → Bool}
    {resume : World → Computation (List α) → Moment (List α)}
    {resume' : World → Computation (List β) → Moment (List β)} (htracks : m.Tracks F Q n)
    (hresume : ∀ later c d, Computation.Tracks F Q c d →
      (resume later c).Tracks F W (resume' later d)) :
    (m.besideWaiting ready resume).Tracks F W (n.besideWaiting ready resume') := by
  induction htracks with
  | finished world hresult =>
      cases hresult with
      | ok hvalues =>
          refine .waiting world ready fun later => hresume later _ _ fun next => ?_
          exact .finished next (.ok hvalues)
      | error hfailures => exact .finished world (.error hfailures)
  | waiting world ready' hrest ih =>
      refine .waiting world _ fun later => ?_
      split
      · exact hresume later _ _ (again hrest)
      · exact ih later

theorem beside {c : Computation (List α)} {d : Computation (List β)} (htracks : m.Tracks F R n)
    (hothers : c.Tracks F (List.Forall₂ R) d) :
    (m.beside c).Tracks F (List.Forall₂ R) (n.beside d) := by
  induction htracks generalizing c d with
  | finished world hresult =>
      cases hresult with
      | ok hvalues =>
          refine (hothers world).mapResult fun result result' hlists => ?_
          cases hlists with
          | ok hlists => exact .ok (.cons hvalues hlists)
          | error hfailures => exact .error hfailures
      | error hfailures => exact .finished world (.error hfailures)
  | waiting world ready _ ih =>
      exact besideWaiting (hothers world) fun later c d htracks => ih later htracks

end Moment.Tracks

namespace Computation.Tracks

variable {c : Computation α} {d : Computation β}

theorem mono {R' : α → β → Prop} (htracks : c.Tracks F R d) (hfailures : ∀ f g, F f g → G f g)
    (hvalues : ∀ x y, R x y → R' x y) : c.Tracks G R' d :=
  fun world => (htracks world).mono hfailures hvalues

theorem pure {x : α} {y : β} (hvalues : R x y) : Tracks F R (pure x) (pure y) :=
  fun world => .finished world (.ok hvalues)

theorem fail {f g : Failure} (hfailures : F f g) : Tracks F R (fail f) (fail g) :=
  fun world => .finished world (.error hfailures)

theorem ofExcept {result : Except Failure α} {result' : Except Failure β}
    (hresult : Tracked F R result result') : Tracks F R (ofExcept result) (ofExcept result') := by
  cases hresult with
  | ok hvalues => exact pure hvalues
  | error hfailures => exact fail hfailures

theorem bind {next : α → Computation γ} {next' : β → Computation δ} (htracks : c.Tracks F R d)
    (hnext : ∀ x y, R x y → (next x).Tracks F S (next' y)) :
    (c >>= next).Tracks F S (d >>= next') :=
  fun world => (htracks world).andThen hnext

theorem mapFailure {rename rename' : Failure → Failure} (htracks : c.Tracks F R d)
    (hrename : ∀ f g, F f g → G (rename f) (rename' g)) :
    (c.mapFailure rename).Tracks G R (d.mapFailure rename') := by
  refine fun world => (htracks world).mapResult fun result result' hresult => ?_
  cases hresult with
  | ok hvalues => exact .ok hvalues
  | error hfailures => exact .error (hrename _ _ hfailures)

theorem cancellable (htracks : c.Tracks F R d) (hcancelled : F .cancelled .cancelled) :
    c.cancellable.Tracks F R d.cancellable := by
  intro world
  unfold Computation.cancellable
  split
  · exact .finished world (.error hcancelled)
  · exact (htracks world).guarded hcancelled

theorem joinAll {cs : List (Computation α)} {ds : List (Computation β)}
    (htracks : List.Forall₂ (Tracks F R) cs ds) :
    (joinAll cs).Tracks F (List.Forall₂ R) (joinAll ds) := by
  induction htracks with
  | nil => exact pure .nil
  | cons hfirst _ ih => exact fun world => (hfirst world).beside ih

theorem joinAll_eq {cs ds : List (Computation α)} (htracks : List.Forall₂ (Tracks F Eq) cs ds) :
    (Computation.joinAll cs).Tracks F Eq (Computation.joinAll ds) := by
  have hjoined := joinAll htracks
  rwa [List.forall₂_eq_eq_eq] at hjoined

theorem checkCancelled {R : Unit → Unit → Prop} (hcancelled : F .cancelled .cancelled)
    (hvalues : R () ()) :
    Computation.checkCancelled.Tracks F R Computation.checkCancelled := by
  intro world
  refine .finished world ?_
  split
  · exact .error hcancelled
  · exact .ok hvalues

theorem checked (hcancelled : F .cancelled .cancelled) (htracks : c.Tracks F R d) :
    Tracks F R (Computation.checkCancelled >>= fun _ => c)
      (Computation.checkCancelled >>= fun _ => d) := by
  have hcheck := checkCancelled (R := fun _ _ => True) hcancelled trivial
  exact hcheck.bind fun _ _ _ => htracks

/-- An action that cannot fail. -/
theorem action {x : World → α} {next : World → World} :
    Tracks F Eq (ofAction (ExceptT.mk fun world => (.ok (x world), next world)))
      (ofAction (ExceptT.mk fun world => (.ok (x world), next world))) :=
  fun world => .finished (next world) (.ok rfl)

end Computation.Tracks

/-! ## Steps on a state -/

/-- The steps leave the same state, and results that are related. -/
def StepTracks {σ : Type} (F : Failure → Failure → Prop) (R : α → β → Prop)
    (step : ExceptT Failure (StateM σ) α) (step' : ExceptT Failure (StateM σ) β) : Prop :=
  ∀ state, Tracked F R (step.run.run state).1 (step'.run.run state).1 ∧
    (step.run.run state).2 = (step'.run.run state).2

namespace StepTracks

variable {σ : Type}

theorem pure {x : α} {y : β} (hvalues : R x y) :
    StepTracks F R (Pure.pure x : ExceptT Failure (StateM σ) α) (Pure.pure y) :=
  fun _ => ⟨.ok hvalues, rfl⟩

theorem throw {f g : Failure} (hfailures : F f g) :
    StepTracks F R (MonadExcept.throw f : ExceptT Failure (StateM σ) α) (MonadExcept.throw g) :=
  fun _ => ⟨.error hfailures, rfl⟩

theorem bind {step : ExceptT Failure (StateM σ) α} {step' : ExceptT Failure (StateM σ) β}
    {next : α → ExceptT Failure (StateM σ) γ} {next' : β → ExceptT Failure (StateM σ) δ}
    (hstep : StepTracks F R step step')
    (hnext : ∀ x y, R x y → StepTracks F S (next x) (next' y)) :
    StepTracks F S (step >>= next) (step' >>= next') := by
  intro state
  obtain ⟨hresult, hstate⟩ := hstep state
  rw [ExceptT.run_bind, StateT.run_bind, ExceptT.run_bind, StateT.run_bind]
  rcases hrun : step.run.run state with ⟨result, between⟩
  rcases hrun' : step'.run.run state with ⟨result', between'⟩
  rw [hrun, hrun'] at hresult hstate
  obtain rfl : between = between' := hstate
  cases hresult with
  | ok hvalues => exact hnext _ _ hvalues between
  | error hfailures => exact ⟨.error hfailures, rfl⟩

theorem lift {result : Except Failure α} {result' : Except Failure β}
    (hresult : Tracked F R result result') :
    StepTracks F R (liftM result : ExceptT Failure (StateM σ) α) (liftM result') := by
  intro state
  cases hresult with
  | ok hvalues => exact ⟨.ok hvalues, rfl⟩
  | error hfailures => exact ⟨.error hfailures, rfl⟩

end StepTracks

theorem Computation.Tracks.now {c : Computation α} {d : Computation β} (htracks : c.Tracks F R d)
    (hwaits : F .notSynchronous .notSynchronous) : StepTracks F R c.now d.now := by
  intro world
  have hmoments := htracks world
  unfold Computation.now
  rw [ExceptT.run_mk, ExceptT.run_mk, StateT.run, StateT.run]
  generalize c world = moment at hmoments ⊢
  generalize d world = moment' at hmoments ⊢
  cases hmoments with
  | finished _ hresult => exact ⟨hresult, rfl⟩
  | waiting _ _ _ => exact ⟨.error hwaits, rfl⟩

/-! ## The congruence -/

theorem Reading.exists_each {R : Reading α β} {xs : List α} {ys : List β}
    (hrelated : List.Forall₂ (fun x y => ∃ drawn, R drawn x y) xs ys) :
    ∃ drawn, R.Each drawn xs ys := by
  induction hrelated with
  | nil => exact ⟨0, .nil⟩
  | cons hfirst _ ih =>
      obtain ⟨drawn, hfirst⟩ := hfirst
      obtain ⟨more, hrest⟩ := ih
      exact ⟨drawn + more, .cons hfirst hrest⟩

/-- Computations that track each other, with whatever numbers drawn. -/
def Congruence.tracking (F : Failure → Failure → Prop) (hcancelled : F .cancelled .cancelled) :
    Congruence where
  Rel R c d := c.Tracks F (fun x y => ∃ drawn, R drawn x y) d
  Fails := F
  Draws _ id id' := id = id'
  mono htracks hle := htracks.mono (fun _ _ => id) fun _ _ ⟨drawn, hreads⟩ =>
    ⟨drawn, hle drawn _ _ hreads⟩
  pure hreads := .pure ⟨0, hreads⟩
  fail := .fail
  bind htracks hnext := htracks.bind fun _ _ ⟨drawn, hreads⟩ =>
    (hnext drawn _ _ hreads).mono (fun _ _ => id) fun _ _ ⟨more, hmore⟩ => ⟨drawn + more, hmore⟩
  joinAll htracks := (Computation.Tracks.joinAll htracks).mono (fun _ _ => id)
    fun _ _ => Reading.exists_each
  mapFailure htracks hrename := htracks.mapFailure hrename
  cancellable htracks := htracks.cancellable hcancelled
  checkCancelled := .checkCancelled hcancelled ⟨0, trivial⟩
  freshPoint := Computation.Tracks.action.mono (fun _ _ => id) fun _ _ hsame => ⟨0, hsame⟩

end DecisionLogic
