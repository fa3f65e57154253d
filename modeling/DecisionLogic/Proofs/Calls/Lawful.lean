import DecisionLogic.Proofs.Calls.Traffic
import DecisionLogic.Proofs.Congruence.Law

/-!
# Traffic under a law

If every call of a program by itself ends as a condition says, so does every call among others,
through a pool or without one: the instance that it works on changes nothing but the state it
starts with.  All that comes in is that a call can be cancelled while it waits for an instance.
-/

namespace DecisionLogic

variable {law : Law} {condition : Multiset Nat → Except Failure Evaluation → Prop}

/-- The calls that are under way keep the law, and so will those that are still to be made. -/
structure Calls.Keeps (law : Law) (condition : Multiset Nat → Except Failure Evaluation → Prop)
    (calls : Calls) : Prop where
  program : ∀ data, (calls.program.call data).Keeps law condition
  jobs : ∀ call ∈ calls.calls, call.job.progress.Keeps law condition

namespace Calls

variable {calls : Calls} {number : Nat} {call new : Call}

theorem keeps_new {program : Program} (hprogram : ∀ data, (program.call data).Keeps law condition)
    (top : Bool) (max : Option Nat) : (Calls.new program top max).Keeps law condition :=
  ⟨hprogram, fun _ => nofun⟩

namespace Keeps

variable (hkeeps : calls.Keeps law condition)

include hkeeps

theorem job (hcall : calls.calls[number]? = some call) :
    call.job.progress.Keeps law condition :=
  hkeeps.jobs call (List.mem_of_getElem? hcall)

theorem setPool (pool : Pool Nat) : (calls.setPool pool).Keeps law condition :=
  ⟨hkeeps.program, hkeeps.jobs⟩

theorem setBag (seat : Nat) (bag : Bag) : (calls.setBag seat bag).Keeps law condition :=
  ⟨hkeeps.program, hkeeps.jobs⟩

theorem setCall (number : Nat) (hnew : new.job.progress.Keeps law condition) :
    (calls.setCall number new).Keeps law condition := by
  refine ⟨hkeeps.program, fun other hother => ?_⟩
  rcases List.mem_or_eq_of_mem_set hother with hmem | rfl
  · exact hkeeps.jobs other hmem
  · exact hnew

theorem start (data : Json) (cancelled : Bool) :
    (calls.start data cancelled).2.Keeps law condition := by
  rw [start_eq]
  refine ⟨hkeeps.program, fun other hother => ?_⟩
  rcases List.mem_append.mp hother with hmem | hlast
  · exact hkeeps.jobs other hmem
  · rw [List.mem_singleton.mp hlast]
    exact .unstarted (hkeeps.program data)

theorem pollSeated (hjob : call.job.progress.Keeps law condition) (pool : Pool Nat)
    (ticket seat : Nat) (world : World) :
    (calls.pollSeated number call pool ticket seat world).1.Meets condition ∧
      (calls.pollSeated number call pool ticket seat world).2.1.Keeps law condition := by
  have hshared : ({ call.job with bag := calls.bags.read seat } : Job Evaluation).progress.Keeps
      law condition := hjob
  have hpolled := (Job.poll_keeps hshared world).2
  unfold Calls.pollSeated
  rcases hpoll : Job.poll { call.job with bag := calls.bags.read seat } world
    with ⟨answer, job, world'⟩
  rw [hpoll] at hpolled
  obtain ⟨hlater, hmeets⟩ := hpolled
  have hcalls : ((calls.setBag seat job.bag).setCall number
      { call with seat := some seat, job }).Keeps law condition :=
    (hkeeps.setBag seat job.bag).setCall number hlater
  cases answer with
  | finished result => exact ⟨hmeets, hcalls.setPool _⟩
  | pending => exact ⟨nofun, hcalls⟩
  | _ => exact ⟨nofun, hcalls⟩

theorem poll (hcancelled : ∀ drawn, condition drawn (.error .cancelled)) (number : Nat)
    (world : World) :
    (calls.poll number world).1.Meets condition ∧
      (calls.poll number world).2.1.Keeps law condition := by
  unfold Calls.poll
  split
  · exact ⟨nofun, hkeeps⟩
  next call hcall =>
    split
    · exact ⟨nofun, hkeeps⟩
    · split
      next pool ticket _ _ =>
        split
        next seat _ => exact hkeeps.pollSeated (hkeeps.job hcall) pool ticket seat world
        next =>
          split
          next seat pool' _ =>
            exact ((hkeeps.setPool pool').setBag seat []).pollSeated (hkeeps.job hcall) pool' ticket
              seat world
          next => exact ⟨nofun, hkeeps.setPool _⟩
          next pool' _ =>
            refine ⟨?_, (hkeeps.setPool pool').setCall number .over⟩
            rintro result ⟨⟩
            exact ⟨0, hcancelled 0⟩
          next => exact ⟨nofun, hkeeps.setPool _⟩
      next =>
        obtain ⟨-, hlater, hmeets⟩ := Job.poll_keeps (hkeeps.job hcall) world
        exact ⟨hmeets, hkeeps.setCall number hlater⟩

theorem cancel (number : Nat) : (calls.cancel number).Keeps law condition := by
  unfold Calls.cancel
  split
  · exact hkeeps
  next call hcall =>
    have hjob := hkeeps.job hcall
    exact hkeeps.setCall number hjob

theorem drop (number : Nat) : (calls.drop number).2.Keeps law condition := by
  unfold Calls.drop
  split
  · exact hkeeps
  next call hcall =>
    split
    · exact hkeeps
    · have hdropped : (calls.setCall number { call with job := call.job.drop }).Keeps law
          condition := hkeeps.setCall number .over
      split
      · exact hdropped.setPool _
      · exact hdropped

end Keeps
end Calls

namespace CallTraffic

theorem keeps_step (hcancelled : ∀ drawn, condition drawn (.error .cancelled))
    {traffic : CallTraffic} (hkeeps : traffic.calls.Keeps law condition) (event : CallEvent) :
    (traffic.step event).calls.Keeps law condition := by
  cases event with
  | start data cancelled => exact hkeeps.start data cancelled
  | poll number => exact (hkeeps.poll hcancelled number traffic.world).2
  | cancel number => exact hkeeps.cancel number
  | drop number => exact hkeeps.drop number

theorem keeps_run {program : Program}
    (hprogram : ∀ data, (program.call data).Keeps law condition)
    (hcancelled : ∀ drawn, condition drawn (.error .cancelled)) (top : Bool) (max : Option Nat)
    (world : World) (events : List CallEvent) :
    ((CallTraffic.new program top max world).run events).calls.Keeps law condition :=
  run_induction (fun traffic => traffic.calls.Keeps law condition)
    (fun _ event hkeeps => keeps_step hcancelled hkeeps event)
    (Calls.keeps_new hprogram top max) events

end CallTraffic
end DecisionLogic
