import DecisionLogic.Proofs.Congruence.Law

/-!
# What computations come to

A computation comes to a value when some sequence of polls, in whatever worlds, ends with it.  Each
way to build a computation is taken apart here: what the whole comes to is traced back to what its
parts come to.
-/

namespace DecisionLogic

variable {α β : Type}

inductive Moment.ComesTo : Moment α → α → Prop
  | finished (world : World) (x : α) : ComesTo (.finished world (.ok x)) x
  | waiting {world : World} {ready : World → Bool} {rest : World → Moment α} {x : α}
      (later : World) (hrest : ComesTo (rest later) x) : ComesTo (.waiting world ready rest) x

def Computation.ComesTo (computation : Computation α) (x : α) : Prop :=
  ∃ world, Moment.ComesTo (computation world) x

namespace Moment.ComesTo

theorem rest {world : World} {ready : World → Bool} {rest : World → Moment α} {x : α}
    (hcomes : (Moment.waiting world ready rest).ComesTo x) : ∃ later, (rest later).ComesTo x := by
  cases hcomes with
  | waiting later hrest => exact ⟨later, hrest⟩

theorem of_andThen {moment : Moment α} {next : α → Computation β} {y : β}
    (hcomes : (moment.andThen next).ComesTo y) :
    ∃ x, moment.ComesTo x ∧ (next x).ComesTo y := by
  induction moment with
  | finished world result =>
      cases result with
      | ok x => exact ⟨x, .finished world x, world, hcomes⟩
      | error failure => cases hcomes
  | waiting world ready rest ih =>
      obtain ⟨later, hrest⟩ := hcomes.rest
      obtain ⟨x, hx, hy⟩ := ih later hrest
      exact ⟨x, .waiting later hx, hy⟩

/-- When `f` makes values of values only, related by `R`. -/
theorem of_mapResult {f : Except Failure α → Except Failure β} {R : α → β → Prop}
    {moment : Moment α} {y : β} (hcomes : (moment.mapResult f).ComesTo y)
    (hvalues : ∀ result y, f result = .ok y → ∃ x, result = .ok x ∧ R x y) :
    ∃ x, moment.ComesTo x ∧ R x y := by
  induction moment with
  | finished world result =>
      have hfinished : f result = .ok y := by
        generalize hresult : f result = mapped at *
        rw [mapResult, hresult] at hcomes
        cases hcomes
        rfl
      obtain ⟨x, rfl, hrelated⟩ := hvalues result y hfinished
      exact ⟨x, .finished world x, hrelated⟩
  | waiting world ready rest ih =>
      obtain ⟨later, hrest⟩ := hcomes.rest
      obtain ⟨x, hx, hrelated⟩ := ih later hrest
      exact ⟨x, .waiting later hx, hrelated⟩

theorem of_guarded {moment : Moment α} {x : α} (hcomes : moment.guarded.ComesTo x) :
    moment.ComesTo x := by
  induction moment with
  | finished world result => exact hcomes
  | waiting world ready rest ih =>
      obtain ⟨later, hrest⟩ := hcomes.rest
      split at hrest
      · cases hrest
      · exact .waiting later (ih later hrest)

/-- The first computation of a join is resumed in front of what is left of the others. -/
theorem of_besideWaiting {moment : Moment (List α)} {ready : World → Bool}
    {resume : World → Computation (List α) → Moment (List α)} {zs : List α}
    (hcomes : (moment.besideWaiting ready resume).ComesTo zs) :
    ∃ later others, (resume later others).ComesTo zs ∧
      ∀ xs, Computation.ComesTo others xs → moment.ComesTo xs := by
  induction moment with
  | finished world result =>
      cases result with
      | error failure => cases hcomes
      | ok xs =>
          obtain ⟨later, hrest⟩ := hcomes.rest
          refine ⟨later, _, hrest, ?_⟩
          rintro _ ⟨next, ⟨⟩⟩
          exact .finished world xs
  | waiting world ready' rest ih =>
      obtain ⟨later, hrest⟩ := hcomes.rest
      split at hrest
      · refine ⟨later, _, hrest, ?_⟩
        rintro xs ⟨next, hothers⟩
        dsimp only at hothers
        split at hothers
        · exact .waiting next hothers
        · obtain ⟨last, hlast⟩ := hothers.rest
          exact .waiting last hlast
      · obtain ⟨last, others, hresumed, hothers⟩ := ih later hrest
        exact ⟨last, others, hresumed, fun xs hxs => .waiting later (hothers xs hxs)⟩

theorem of_beside {moment : Moment α} {others : Computation (List α)} {zs : List α}
    (hcomes : (moment.beside others).ComesTo zs) :
    ∃ x xs, zs = x :: xs ∧ moment.ComesTo x ∧ others.ComesTo xs := by
  induction moment generalizing others with
  | finished world result =>
      cases result with
      | error failure => cases hcomes
      | ok x =>
          have hcons (result : Except Failure (List α)) (zs : List α)
              (hmap : result.map (x :: ·) = .ok zs) : ∃ xs, result = .ok xs ∧ x :: xs = zs := by
            cases result with
            | error failure => cases hmap
            | ok xs => exact ⟨xs, rfl, Except.ok.inj hmap⟩
          obtain ⟨xs, hxs, rfl⟩ := of_mapResult hcomes hcons
          exact ⟨x, xs, rfl, .finished world x, world, hxs⟩
  | waiting world ready rest ih =>
      obtain ⟨later, left, hresumed, hothers⟩ := of_besideWaiting hcomes
      obtain ⟨x, xs, rfl, hx, hxs⟩ := ih later hresumed
      exact ⟨x, xs, rfl, .waiting later hx, world, hothers xs hxs⟩

/-- Whatever worlds the moment is polled in, it ends with nothing else. -/
theorem keeps_free (moment : Moment α) (w : World) :
    moment.Keeps .free (fun _ result => ∀ x, result = .ok x → moment.ComesTo x) w := by
  have hstep (w world : World) : Law.free.Step w world 0 := trivial
  induction moment generalizing w with
  | finished world result =>
      refine .finished (hstep w world) ?_
      rintro x rfl
      exact .finished world x
  | waiting world ready rest ih =>
      refine .waiting (hstep w world) fun later => ?_
      exact (ih later later).mono fun _ _ hcomes x hx => .waiting later (hcomes x hx)

end Moment.ComesTo

namespace Computation.ComesTo

variable {c : Computation α} {x : α}

theorem of_pure {y : α} (hcomes : ComesTo (pure x) y) : x = y := by
  obtain ⟨world, ⟨⟩⟩ := hcomes
  rfl

theorem not_fail {failure : Failure} : ¬ ComesTo (fail failure) x := by
  rintro ⟨world, ⟨⟩⟩

theorem of_bind {next : α → Computation β} {y : β} (hcomes : (c >>= next).ComesTo y) :
    ∃ x, c.ComesTo x ∧ (next x).ComesTo y := by
  obtain ⟨world, hcomes⟩ := hcomes
  obtain ⟨x, hx, hy⟩ := Moment.ComesTo.of_andThen hcomes
  exact ⟨x, ⟨world, hx⟩, hy⟩

theorem of_mapFailure {f : Failure → Failure} (hcomes : (c.mapFailure f).ComesTo x) :
    c.ComesTo x := by
  obtain ⟨world, hcomes⟩ := hcomes
  have hsame (result : Except Failure α) (y : α) (hmap : result.mapError f = .ok y) :
      ∃ x, result = .ok x ∧ x = y := by
    cases result with
    | error failure => cases hmap
    | ok x => exact ⟨x, rfl, Except.ok.inj hmap⟩
  obtain ⟨x, hx, rfl⟩ := Moment.ComesTo.of_mapResult hcomes hsame
  exact ⟨world, hx⟩

theorem of_cancellable (hcomes : c.cancellable.ComesTo x) : c.ComesTo x := by
  obtain ⟨world, hcomes⟩ := hcomes
  unfold Computation.cancellable at hcomes
  split at hcomes
  · cases hcomes
  · exact ⟨world, hcomes.of_guarded⟩

theorem of_joinAll {cs : List (Computation α)} {xs : List α} (hcomes : (joinAll cs).ComesTo xs) :
    List.Forall₂ ComesTo cs xs := by
  induction cs generalizing xs with
  | nil =>
      obtain rfl := of_pure hcomes
      exact .nil
  | cons c cs ih =>
      obtain ⟨world, hcomes⟩ := hcomes
      obtain ⟨x, xs, rfl, hx, hxs⟩ := hcomes.of_beside
      exact .cons ⟨world, hx⟩ (ih hxs)

end Computation.ComesTo

/-- The answer of a job is one that its computation comes to. -/
theorem Job.Reached.comesTo {computation : Computation α} {job : Job α} {world : World} {x : α}
    (hreached : Reached computation job) (hanswer : (job.poll world).1 = .finished (.ok x)) :
    computation.ComesTo x := by
  have hkeeps : computation.Keeps .free
      (fun _ result => ∀ x, result = .ok x → computation.ComesTo x) := by
    intro w
    refine (Moment.ComesTo.keeps_free (computation w) w).mono ?_
    exact fun _ _ hcomes x hx => ⟨w, hcomes x hx⟩
  obtain ⟨-, -, hmeets⟩ := poll_keeps (hreached.keeps hkeeps) world
  obtain ⟨-, hcomes⟩ := hmeets _ hanswer
  exact hcomes x rfl

end DecisionLogic
