import DecisionLogic.Proofs.Alike.Job
import DecisionLogic.Proofs.Judgement.Conclusion

/-!
# Computations that end

A computation that concludes ends when it is polled by itself, as often as it takes, in a fresh
invocation.  It ends with one result only.
-/

namespace DecisionLogic

variable {α : Type} {patient : Prop}

/-- Polled by itself in a fresh invocation from the world `w` on, the computation ends with the
result and leaves `w'` behind. -/
def Computation.Ends (computation : Computation α) (w : World) (result : Except Failure α)
    (w' : World) : Prop :=
  ∃ polls job, (Job.new computation false).pollUntilOver w polls = (.finished result, job, w')

namespace Job

theorem pollUntilOver_of_le {job job' : Job α} {w w' : World} {result : Except Failure α}
    {polls more : Nat} (hends : job.pollUntilOver w polls = (.finished result, job', w'))
    (hle : polls ≤ more) : job.pollUntilOver w more = (.finished result, job', w') := by
  induction polls generalizing job w more with
  | zero => cases hends
  | succ polls ih =>
      obtain ⟨rest, rfl⟩ : ∃ rest, more = rest + 1 := ⟨more - 1, by omega⟩
      unfold pollUntilOver at hends ⊢
      rcases hpoll : job.poll w with ⟨answer, later, after⟩
      rw [hpoll] at hends
      cases answer with
      | pending => exact ih hends (by omega)
      | finished other => exact hends
      | _ => cases hends

def afterPoll (polled : JobAnswer α × Job α × World) (polls : Nat) :
    JobAnswer α × Job α × World :=
  match polled with
  | (.pending, job, world) => job.pollUntilOver world polls
  | ended => ended

theorem pollUntilOver_succ (job : Job α) (world : World) (polls : Nat) :
    job.pollUntilOver world (polls + 1) = afterPoll (job.poll world) polls := by
  unfold pollUntilOver afterPoll
  rcases job.poll world with ⟨answer, later, after⟩
  cases answer <;> rfl

end Job

theorem Computation.Ends.unique {computation : Computation α} {w v u : World}
    {x y : Except Failure α} (hx : computation.Ends w x v) (hy : computation.Ends w y u) :
    x = y ∧ v = u := by
  obtain ⟨m, job, hm⟩ := hx
  obtain ⟨n, job', hn⟩ := hy
  have hm' := Job.pollUntilOver_of_le hm (Nat.le_max_left m n)
  have hn' := Job.pollUntilOver_of_le hn (Nat.le_max_right m n)
  rw [hm'] at hn'
  cases hn'
  exact ⟨rfl, rfl⟩

theorem Moment.Concludes.ends {condition : Condition α} {w : World} {m : Moment α}
    (hconcludes : m.Concludes patient condition w) :
    ∃ polls result job w' effect, Job.afterPoll (Job.settle m) polls = (.finished result, job, w') ∧
      w.Does w' effect ∧ condition effect result := by
  induction hconcludes with
  | @finished condition w w' effect result hdoes hresult =>
      exact ⟨0, result, _, w', effect, rfl, hdoes, hresult⟩
  | @waiting condition w w' effect ready rest _ hdoes hready _ ih =>
      obtain ⟨polls, result, job, last, more, hends, hdoes', hresult⟩ := ih w' hdoes.active
      refine ⟨polls + 1, result, job, last, effect + more, ?_, hdoes.trans hdoes', hresult⟩
      have hpoll : (⟨w'.bag, w'.cancelled, .running (.waiting w' ready rest)⟩ : Job α).poll w' =
          Job.settle (rest w') := by
        have hrest : (Moment.waiting w' ready rest).poll w' = rest w' :=
          Moment.poll_waiting_of_ready (hready w' hdoes.active)
        exact congrArg Job.settle hrest
      change Job.pollUntilOver _ w' (polls + 1) = _
      rw [Job.pollUntilOver_succ, hpoll]
      exact hends

/-- A computation that concludes ends, with an effect and a result as the condition says. -/
theorem Computation.Concludes.ends_does {condition : Condition α} {computation : Computation α}
    (hconcludes : computation.Concludes patient condition) (w : World) :
    ∃ result w' effect, computation.Ends w result w' ∧ condition effect result ∧
      World.Does { w with bag := [], cancelled := false } w' effect := by
  let start : World := { w with bag := [], cancelled := false }
  obtain ⟨polls, result, job, w', effect, hends, hdoes, hresult⟩ :=
    (hconcludes start rfl).ends
  refine ⟨result, w', effect, ⟨polls + 1, job, ?_⟩, hresult, hdoes⟩
  rw [Job.pollUntilOver_succ]
  exact hends

theorem Computation.Concludes.ends {condition : Condition α} {computation : Computation α}
    (hconcludes : computation.Concludes patient condition) (w : World) :
    ∃ result w' effect count, computation.Ends w result w' ∧ condition effect result ∧
      w'.traversals = effect.1 + w.traversals ∧ effect.2 = w.nextNumbers count := by
  obtain ⟨result, w', effect, hends, hresult, hdoes⟩ := hconcludes.ends_does w
  obtain ⟨count, -, hdrawn⟩ := hdoes.draws
  exact ⟨result, w', effect, count, hends, hresult, hdoes.calls, hdrawn⟩

end DecisionLogic
