import DecisionLogic.Program.Calls

/-!
# Traffic of calls

All calls of one program and everything that may happen to them, in any order: a call is made, it is
polled, its token fires, it is dropped.
-/

namespace DecisionLogic

inductive CallEvent where
  /-- A call for `data` is made; its token may have fired before. -/
  | start (data : Json) (cancelled : Bool)
  | poll (number : Nat)
  | cancel (number : Nat)
  | drop (number : Nat)

def CallEvent.data? : CallEvent → Option Json
  | .start data _ => some data
  | _ => none

structure CallTraffic where
  calls : Calls
  world : World
  /-- The calls whose token was fired by their caller. -/
  fired : List Nat

namespace CallTraffic

def new (program : Program) (top : Bool) (max : Option Nat) (world : World) : CallTraffic :=
  ⟨Calls.new program top max, world, []⟩

def step (traffic : CallTraffic) : CallEvent → CallTraffic
  | .start data cancelled =>
      { traffic with
        calls := (traffic.calls.start data cancelled).2
        fired := if cancelled then traffic.calls.calls.length :: traffic.fired else traffic.fired }
  | .poll number =>
      { traffic with
        calls := (traffic.calls.poll number traffic.world).2.1
        world := (traffic.calls.poll number traffic.world).2.2 }
  | .cancel number =>
      { traffic with
        calls := traffic.calls.cancel number
        fired :=
          if number < traffic.calls.calls.length then number :: traffic.fired
          else traffic.fired }
  | .drop number => { traffic with calls := (traffic.calls.drop number).2 }

def run (traffic : CallTraffic) (events : List CallEvent) : CallTraffic :=
  events.foldl step traffic

/-- What every single event preserves holds after all of them. -/
theorem run_induction (holds : CallTraffic → Prop)
    (hstep : ∀ traffic event, holds traffic → holds (traffic.step event)) {traffic : CallTraffic}
    (hstart : holds traffic) (events : List CallEvent) : holds (traffic.run events) := by
  induction events generalizing traffic with
  | nil => exact hstart
  | cons event events ih => exact ih (hstep traffic event hstart)

end CallTraffic

namespace Calls

theorem start_eq (calls : Calls) (data : Json) (cancelled : Bool) :
    (calls.start data cancelled).2 =
      { calls with
        pool := calls.pool.map fun pool => pool.enter.2
        calls := calls.calls ++ [⟨data, calls.pool.map fun pool => pool.claims.length, none,
          Job.new (calls.program.call data) cancelled⟩] } := by
  unfold start
  cases calls.pool <;> simp [Pool.enter]

/-! ## The data of the calls -/

def data (calls : Calls) : List Json :=
  calls.calls.map Call.data

variable {calls : Calls} {number : Nat} {call new : Call}

theorem data_setCall (hcall : calls.calls[number]? = some call) (hnew : new.data = call.data) :
    (calls.setCall number new).data = calls.data := by
  obtain ⟨hlt, rfl⟩ := List.getElem?_eq_some_iff.mp hcall
  unfold data setCall
  rw [List.map_set, hnew, ← List.map_set, List.set_getElem_self]

theorem data_start (calls : Calls) (data : Json) (cancelled : Bool) :
    (calls.start data cancelled).2.data = calls.data ++ [data] := by
  unfold Calls.data start
  cases calls.pool <;> simp

theorem data_pollSeated (hcall : calls.calls[number]? = some call) (pool : Pool Nat)
    (ticket seat : Nat) (world : World) :
    (calls.pollSeated number call pool ticket seat world).2.1.data = calls.data := by
  unfold pollSeated
  rcases Job.poll { call.job with bag := calls.bags.read seat } world with ⟨answer, job, world'⟩
  have hdata : ((calls.setBag seat job.bag).setCall number
      { call with seat := some seat, job }).data = calls.data := data_setCall hcall rfl
  cases answer with
  | finished result => exact hdata
  | pending => exact hdata
  | _ => exact hdata

theorem data_poll (calls : Calls) (number : Nat) (world : World) :
    (calls.poll number world).2.1.data = calls.data := by
  unfold poll
  split
  · rfl
  next call hcall =>
    split
    · rfl
    · split
      next pool ticket _ _ =>
        split
        next seat _ => exact data_pollSeated hcall pool ticket seat world
        next =>
          split
          next seat pool' _ =>
            have hcall' : ((calls.setPool pool').setBag seat []).calls[number]? = some call := hcall
            exact data_pollSeated hcall' pool' ticket seat world
          next => rfl
          next pool' _ =>
            have hcall' : (calls.setPool pool').calls[number]? = some call := hcall
            exact data_setCall hcall' rfl
          next => rfl
      next => exact data_setCall hcall rfl

theorem data_cancel (calls : Calls) (number : Nat) : (calls.cancel number).data = calls.data := by
  unfold cancel
  split
  · rfl
  next call hcall => exact data_setCall hcall rfl

theorem data_drop (calls : Calls) (number : Nat) : (calls.drop number).2.data = calls.data := by
  unfold drop
  split
  · rfl
  next call hcall =>
    split
    · rfl
    · split
      · exact data_setCall hcall rfl
      · exact data_setCall hcall rfl

end Calls

namespace CallTraffic

theorem data_step (traffic : CallTraffic) (event : CallEvent) :
    (traffic.step event).calls.data = traffic.calls.data ++ event.data?.toList := by
  cases event with
  | start data cancelled => exact traffic.calls.data_start data cancelled
  | poll number => exact (traffic.calls.data_poll number _).trans (List.append_nil _).symm
  | cancel number => exact (traffic.calls.data_cancel number).trans (List.append_nil _).symm
  | drop number => exact (traffic.calls.data_drop number).trans (List.append_nil _).symm

theorem data_run (traffic : CallTraffic) (events : List CallEvent) :
    (traffic.run events).calls.data = traffic.calls.data ++ events.filterMap CallEvent.data? := by
  induction events generalizing traffic with
  | nil => exact (List.append_nil _).symm
  | cons event events ih =>
      have hstep := ih (traffic.step event)
      rw [data_step] at hstep
      refine hstep.trans ?_
      cases hdata : event.data? <;> simp [hdata]

end CallTraffic
end DecisionLogic
