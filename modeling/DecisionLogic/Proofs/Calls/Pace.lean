import DecisionLogic.Proofs.Alike.Engine
import DecisionLogic.Proofs.Alike.Job
import DecisionLogic.Proofs.Alike.Numbers
import DecisionLogic.Proofs.Calls.Alone

/-!
# A job and the lone call for the same data

`Job.Paced` compares a job somewhere in a history of calls with a call that the program makes alone.
The job may have waited for an instance and other calls may have drawn numbers in between; what
counts is how often it was polled itself.
-/

namespace DecisionLogic

/-- The lone call for the same data stands where the job stands, unless the job's token was `fired`.
In that case some other job does, which need not be that of a lone call. -/
def Job.Paced (program : Program) (data : Json) (fired : Prop) (job : Job Evaluation)
    (nextPoint : Nat) : Prop :=
  ∃ polls pairs lone later,
    (¬ fired → (Job.new (program.call data) false).pollUntilOver (.start 0) polls =
      (.pending, lone, later)) ∧
    job.Alike Likeness.evaluation pairs lone ∧
    pairs.Increasing nextPoint later.nextPoint ∧ later.nextPoint ≤ nextPoint

/-- The lone call for the same data ends with a result that corresponds to `result`. -/
def Program.Answers (program : Program) (data : Json) (fired : Prop)
    (result : Except Failure Evaluation) (nextPoint : Nat) : Prop :=
  ∃ polls pairs lone later expected,
    (¬ fired → (Job.new (program.call data) false).pollUntilOver (.start 0) polls =
      (.finished expected, lone, later)) ∧
    ResultAlike (Likeness.evaluation pairs) result expected ∧
    pairs.Increasing nextPoint later.nextPoint ∧ later.nextPoint ≤ nextPoint

variable {program : Program} {data : Json} {fired : Prop} {job : Job Evaluation} {nextPoint : Nat}

/-- What a poll in a world with the given next number makes of a paced job. -/
inductive Job.PolledInPace (program : Program) (data : Json) (fired : Prop) (nextPoint : Nat) :
    JobAnswer Evaluation × Job Evaluation × World → Prop
  | finished {result : Except Failure Evaluation} {job : Job Evaluation} {world : World}
      (hle : nextPoint ≤ world.nextPoint) (hover : job.isOver = true)
      (hanswers : program.Answers data fired result world.nextPoint) :
      PolledInPace program data fired nextPoint (.finished result, job, world)
  | pending {job : Job Evaluation} {world : World} (hle : nextPoint ≤ world.nextPoint)
      (hpaced : job.Paced program data fired world.nextPoint) :
      PolledInPace program data fired nextPoint (.pending, job, world)

namespace Job

theorem paced_new
    (hself : Computation.AlikeFrom Likeness.evaluation [] (program.call data) (program.call data))
    (cancelled : Bool) (hfired : cancelled = true → fired) (nextPoint : Nat) :
    (Job.new (program.call data) cancelled).Paced program data fired nextPoint := by
  refine ⟨0, [], Job.new (program.call data) cancelled, .start 0, ?_, .new hself cancelled,
    .nil _ _, Nat.zero_le _⟩
  intro hnot
  cases cancelled with
  | true => exact absurd (hfired rfl) hnot
  | false => rfl

theorem Paced.later {next : Nat} (hpaced : job.Paced program data fired nextPoint)
    (hle : nextPoint ≤ next) : job.Paced program data fired next := by
  obtain ⟨polls, pairs, lone, later, hrun, halike, hincreasing, hdrawn⟩ := hpaced
  exact ⟨polls, pairs, lone, later, hrun, halike, hincreasing.mono hle (Nat.le_refl _),
    Nat.le_trans hdrawn hle⟩

theorem Paced.cancel {fired' : Prop} (hpaced : job.Paced program data fired nextPoint)
    (hfired : fired') : job.cancel.Paced program data fired' nextPoint := by
  obtain ⟨polls, pairs, lone, later, -, halike, hincreasing, hdrawn⟩ := hpaced
  exact ⟨polls, pairs, lone.cancel, later, fun hnot => absurd hfired hnot, halike.cancel,
    hincreasing, hdrawn⟩

theorem Paced.poll {world : World} (hpaced : job.Paced program data fired world.nextPoint) :
    PolledInPace program data fired world.nextPoint (job.poll world) := by
  obtain ⟨polls, pairs, lone, later, hrun, halike, hincreasing, hdrawn⟩ := hpaced
  have hnext := hincreasing.append_nextPairs
  have hpoll := halike.poll Likeness.evaluation_lasting world later
  have hextend : ¬ fired → (Job.new (program.call data) false).pollUntilOver (.start 0)
      (polls + 1) = lone.poll later :=
    fun hnot => pollUntilOver_succ_of_pending (hrun hnot)
  generalize job.poll world = polled at hpoll
  generalize lone.poll later = polled' at hpoll hextend
  cases hpoll with
  | @finished count w' v' job' lone' result expected habreast hover hresult =>
      have hleft := habreast.left
      have hright := habreast.right
      refine .finished (by omega) hover ⟨polls + 1, _, lone', v', expected, hextend, hresult, ?_, ?_⟩
      · rw [hleft, hright]
        exact hnext count
      · omega
  | @pending count w' v' job' lone' habreast hjobs =>
      have hleft := habreast.left
      have hright := habreast.right
      refine .pending (by omega) ⟨polls + 1, _, lone', v', hextend, hjobs, ?_, ?_⟩
      · rw [hleft, hright]
        exact hnext count
      · omega

theorem Paced.isOver_eq_false (hpaced : job.Paced program data fired nextPoint) :
    job.isOver = false := by
  obtain ⟨polls, pairs, lone, later, -, halike, -, -⟩ := hpaced
  exact halike.isOver_eq_false

end Job
end DecisionLogic
