import DecisionLogic.Proofs.Alike.Computation
import DecisionLogic.Computation.Job

/-!
# Jobs side by side

Jobs whose next polls are alike keep pace: they go on together and they end together, with results
that correspond.
-/

namespace DecisionLogic

variable {α β : Type}

def Progress.next? : Progress α → Option (Computation α)
  | .unstarted computation => some computation
  | .running moment => some moment.poll
  | .over => none

namespace Job

/-- The world in which a poll of the job takes place. -/
def own (job : Job α) (world : World) : World :=
  { world with bag := job.bag, cancelled := job.cancelled }

theorem isOver_eq_false_of_next {job : Job α} {c : Computation α}
    (hnext : job.progress.next? = some c) : job.isOver = false := by
  unfold isOver
  cases hprogress : job.progress with
  | unstarted computation => rfl
  | running moment => rfl
  | _ => simp [hprogress, Progress.next?] at hnext

theorem poll_of_next {job : Job α} {c : Computation α} (hnext : job.progress.next? = some c)
    (world : World) : job.poll world = settle (c (job.own world)) := by
  unfold poll
  cases hprogress : job.progress with
  | unstarted computation =>
      rw [hprogress] at hnext
      cases hnext
      rfl
  | running moment =>
      rw [hprogress] at hnext
      cases hnext
      rfl
  | _ =>
      rw [hprogress] at hnext
      cases hnext

theorem pollUntilOver_succ_of_pending {job job' : Job α} {world world' : World} {polls : Nat}
    (hpending : job.pollUntilOver world polls = (.pending, job', world')) :
    job.pollUntilOver world (polls + 1) = job'.poll world' := by
  induction polls generalizing job world with
  | zero =>
      cases hpending
      unfold pollUntilOver
      rcases job'.poll world' with ⟨answer, later, after⟩
      cases answer <;> rfl
  | succ polls ih =>
      unfold pollUntilOver at hpending ⊢
      rcases hpoll : job.poll world with ⟨answer, later, after⟩
      rw [hpoll] at hpending
      cases answer with
      | pending => exact ih hpending
      | finished result => cases hpending
      | _ => cases hpending

/-! ## Keeping pace -/

/-- The next polls of the jobs are alike. -/
structure Alike (V : Likeness α β) (pairs : Pairing) (job : Job α) (job' : Job β) : Prop where
  bag : job.bag = job'.bag
  cancelled : job.cancelled = job'.cancelled
  next : ∃ c d, job.progress.next? = some c ∧ job'.progress.next? = some d ∧
    Computation.AlikeFrom V pairs c d

/-- What polls of two jobs come to, the first ones from `w` and the second ones from `v` on. -/
inductive PollAlike (V : Likeness α β) (pairs : Pairing) (w v : World) :
    JobAnswer α × Job α × World → JobAnswer β × Job β × World → Prop
  | finished {count : Nat} {w' v' : World} {job : Job α} {job' : Job β} {x : Except Failure α}
      {y : Except Failure β} (habreast : World.Abreast w v w' v' count)
      (hover : job.isOver = true)
      (hresult : ResultAlike (V (pairs ++ World.nextPairs w v count)) x y) :
      PollAlike V pairs w v (.finished x, job, w') (.finished y, job', v')
  | pending {count : Nat} {w' v' : World} {job : Job α} {job' : Job β}
      (habreast : World.Abreast w v w' v' count)
      (hjobs : job.Alike V (pairs ++ World.nextPairs w v count) job') :
      PollAlike V pairs w v (.pending, job, w') (.pending, job', v')

variable {V : Likeness α β} {pairs : Pairing} {job : Job α} {job' : Job β}

theorem settle_alike (hlasting : V.Lasting) {w v : World} {m : Moment α} {n : Moment β}
    (halike : m.Alike V pairs w v n) : PollAlike V pairs w v (settle m) (settle n) := by
  obtain ⟨count, hadvance, hpoll⟩ := halike.poll hlasting
  cases halike with
  | finished hadvance' hresult => exact .finished hadvance'.toAbreast rfl hresult
  | waiting hadvance' hready hrest =>
      refine .pending hadvance.toAbreast ⟨hadvance.same.bag, hadvance.same.cancelled, _, _, rfl, rfl, ?_⟩
      exact hpoll

theorem Alike.poll (hlasting : V.Lasting) (halike : job.Alike V pairs job') (w v : World) :
    PollAlike V pairs w v (job.poll w) (job'.poll v) := by
  obtain ⟨c, d, hc, hd, hcomputations⟩ := halike.next
  rw [poll_of_next hc, poll_of_next hd]
  have hpolled := settle_alike hlasting
    (hcomputations pairs (job.own w) (job'.own v) (List.Subset.refl _)
      ⟨halike.bag, halike.cancelled⟩)
  generalize settle (c (job.own w)) = polled at hpolled ⊢
  generalize settle (d (job'.own v)) = polled' at hpolled ⊢
  cases hpolled with
  | finished habreast hover hresult =>
      exact .finished ⟨habreast.left, habreast.right, habreast.calls⟩ hover hresult
  | pending habreast hjobs =>
      exact .pending ⟨habreast.left, habreast.right, habreast.calls⟩ hjobs

theorem Alike.new {c : Computation α} {d : Computation β}
    (hcomputations : Computation.AlikeFrom V [] c d) (cancelled : Bool) :
    (Job.new c cancelled).Alike V [] (Job.new d cancelled) :=
  ⟨rfl, rfl, c, d, rfl, rfl, hcomputations⟩

theorem Alike.cancel (halike : job.Alike V pairs job') : job.cancel.Alike V pairs job'.cancel :=
  ⟨halike.bag, rfl, halike.next⟩

theorem Alike.isOver_eq_false (halike : job.Alike V pairs job') : job.isOver = false := by
  obtain ⟨c, d, hc, -, -⟩ := halike.next
  exact isOver_eq_false_of_next hc

/-- Jobs that are alike stay so until they end, and end together. -/
theorem Alike.pollUntilOver (hlasting : V.Lasting) (halike : job.Alike V pairs job') (w v : World)
    (polls : Nat) :
    PollAlike V pairs w v (job.pollUntilOver w polls) (job'.pollUntilOver v polls) := by
  induction polls generalizing pairs job job' w v with
  | zero =>
      refine .pending (.refl w v) ?_
      have hnone : pairs ++ World.nextPairs w v 0 = pairs := List.append_nil pairs
      rw [hnone]
      exact halike
  | succ polls ih =>
      have hpolled := halike.poll hlasting w v
      unfold Job.pollUntilOver
      generalize job.poll w = polled at hpolled ⊢
      generalize job'.poll v = polled' at hpolled ⊢
      cases hpolled with
      | finished habreast hover hresult => exact .finished habreast hover hresult
      | @pending count w' v' later later' habreast hjobs =>
          have hrest := ih hjobs w' v'
          dsimp only
          generalize later.pollUntilOver w' polls = polled at hrest ⊢
          generalize later'.pollUntilOver v' polls = polled' at hrest ⊢
          cases hrest with
          | finished habreast' hover hresult =>
              refine .finished (habreast.trans habreast') hover ?_
              rw [World.nextPairs_add habreast, ← List.append_assoc]
              exact hresult
          | pending habreast' hjobs' =>
              refine .pending (habreast.trans habreast') ?_
              rw [World.nextPairs_add habreast, ← List.append_assoc]
              exact hjobs'

end Job
end DecisionLogic
