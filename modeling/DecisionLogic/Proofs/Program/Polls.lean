import DecisionLogic.Proofs.Alike.Job
import DecisionLogic.Proofs.Calls.Alone
import DecisionLogic.Proofs.Program.Agreement

/-!
# Runs and calls poll for poll

A run and a call of the program built from its logic are polled side by side, each one by itself.
After any number of polls both are still pending, or both have ended in the same way, and the added
operators have been called in the same order with the same inputs.
-/

namespace DecisionLogic

/-- Both jobs go on, or both have ended with results that differ in identifiers only. -/
inductive JobAnswer.Agrees : JobAnswer Evaluation → JobAnswer Evaluation → Prop
  | pending : Agrees .pending .pending
  | finished {x y : Except Failure Evaluation} (hresult : ResultAlike Evaluation.SameUpToIds x y) :
      Agrees (.finished x) (.finished y)

/-! ## Identifiers -/

/-- Identifiers repeat after the same number of draws wherever a supply starts. -/
theorem PointId.fresh_add_congr {m i j : Nat} (n : Nat)
    (hfresh : PointId.fresh (m + i) = PointId.fresh (m + j)) :
    PointId.fresh (n + i) = PointId.fresh (n + j) := by
  have hvalue := congrArg (fun id => id.value.toNat) hfresh
  simp only [PointId.fresh, BitVec.toNat_ofNat] at hvalue
  have hshifted : (n + i) % 2 ^ 128 = (n + j) % 2 ^ 128 := by omega
  unfold PointId.fresh
  congr 1
  apply BitVec.eq_of_toNat_eq
  rw [BitVec.toNat_ofNat, BitVec.toNat_ofNat]
  exact hshifted

namespace World

variable {w v : World} {count : Nat}

theorem exists_of_nextPairs_ids {a b : PointId} (hids : (nextPairs w v count).Ids a b) :
    ∃ i, a = .fresh (w.nextPoint + i) ∧ b = .fresh (v.nextPoint + i) := by
  obtain ⟨m, n, hmem, ha, hb⟩ := hids
  obtain ⟨i, -, hi⟩ := List.mem_map.mp hmem
  cases hi
  exact ⟨i, ha, hb⟩

theorem nextPairs_ids_functional {a b c : PointId} (hab : (nextPairs w v count).Ids a b)
    (hac : (nextPairs w v count).Ids a c) : b = c := by
  obtain ⟨i, rfl, rfl⟩ := exists_of_nextPairs_ids hab
  obtain ⟨j, hfresh, rfl⟩ := exists_of_nextPairs_ids hac
  exact PointId.fresh_add_congr v.nextPoint hfresh

theorem nextPairs_ids_injective {a b c : PointId} (hac : (nextPairs w v count).Ids a c)
    (hbc : (nextPairs w v count).Ids b c) : a = b := by
  obtain ⟨i, rfl, rfl⟩ := exists_of_nextPairs_ids hac
  obtain ⟨j, rfl, hfresh⟩ := exists_of_nextPairs_ids hbc
  exact PointId.fresh_add_congr w.nextPoint hfresh

end World

/-! ## Answers and calls -/

def World.customCalls (world : World) : List Invocation :=
  world.trace.filter fun invocation => invocation.origin = .custom

theorem World.Abreast.customCalls {w v w' v' : World} {count : Nat}
    (habreast : Abreast w v w' v' count) :
    ∃ calls, w'.customCalls = calls ++ w.customCalls ∧ v'.customCalls = calls ++ v.customCalls := by
  obtain ⟨a, b, hw, hv, hab⟩ := habreast.calls
  refine ⟨a.filter fun invocation => invocation.origin = .custom, ?_, ?_⟩
  · unfold World.customCalls
    rw [hw, List.filter_append]
  · unfold World.customCalls
    rw [hv, List.filter_append, hab]

theorem ResultAlike.sameUpToIds {w v : World} {count : Nat} {x y : Except Failure Evaluation}
    (hresult : ResultAlike (Likeness.evaluation (World.nextPairs w v count)) x y) :
    ResultAlike Evaluation.SameUpToIds x y := by
  cases hresult with
  | ok hvalue =>
      apply ResultAlike.ok
      apply Evaluation.Alike.sameUpToIds hvalue
      · intro a b c
        exact World.nextPairs_ids_functional
      · intro a b c
        exact World.nextPairs_ids_injective
  | error failure => exact .error failure

theorem Job.PollAlike.agrees {w v : World}
    {polled polled' : JobAnswer Evaluation × Job Evaluation × World}
    (halike : PollAlike Likeness.evaluation [] w v polled polled') :
    polled.1.Agrees polled'.1 ∧
      ∃ calls, polled.2.2.customCalls = calls ++ w.customCalls ∧
        polled'.2.2.customCalls = calls ++ v.customCalls := by
  cases halike with
  | finished habreast _ hresult => exact ⟨.finished hresult.sameUpToIds, habreast.customCalls⟩
  | pending habreast _ => exact ⟨.pending, habreast.customCalls⟩

/-- However often both are polled, a call made alone agrees with a run. -/
theorem Program.polls_agree {engine : Engine} {logic : Json} {above : List Json} {built : World}
    {program : Program} (hextends : engine.registry.Extends Operator.Faithful)
    (hbuild : (Program.build engine logic above built).1 = .ok program) (top : Bool)
    (max : Option Nat) (data : Json) (w v : World) (polls : Nat) :
    let run := (Job.new (engine.run logic data above) false).pollUntilOver w polls
    let call := program.callAlone top max data v polls
    run.1.Agrees call.1 ∧
      ∃ calls, run.2.2.customCalls = calls ++ w.customCalls ∧
        call.2.2.customCalls = calls ++ v.customCalls := by
  intro run call
  have hnext := Program.call_alike_run hextends hbuild data
  have hjobs := Job.Alike.new hnext false
  have hpolled := hjobs.pollUntilOver Likeness.evaluation_lasting w v polls
  obtain ⟨hanswer, hworld⟩ := program.callAlone_eq top max data v polls
  rw [hanswer, hworld]
  exact hpolled.agrees

end DecisionLogic
