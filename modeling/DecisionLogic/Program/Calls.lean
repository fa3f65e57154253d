import DecisionLogic.Program.Basic
import DecisionLogic.Computation.Job
import DecisionLogic.Pool

/-!
# Calls of a program

A built program and all calls of it.  A pooled program has instances, each with a state of its own
that stays in it from one call to the next.  A call of such a program first claims an instance; once
it holds one it empties the instance's state, works on it, and gives the instance back when it ends,
is cancelled or is dropped.  A call of any other program has a state of its own.
-/

namespace DecisionLogic

abbrev Bag : Type :=
  Fields Json

/-- The states of all instances, by the number of the instance. -/
structure Bags where
  states : List Bag

namespace Bags

def empty : Bags :=
  ⟨[]⟩

/-- The state of an instance; it is empty until something is written to it. -/
def read (bags : Bags) (number : Nat) : Bag :=
  bags.states.getD number []

/-- The states with another one at a position; the list grows as far as it has to. -/
def writeAt : List Bag → Nat → Bag → List Bag
  | [], 0, bag => [bag]
  | [], number + 1, bag => [] :: writeAt [] number bag
  | _ :: rest, 0, bag => bag :: rest
  | first :: rest, number + 1, bag => first :: writeAt rest number bag

def write (bags : Bags) (number : Nat) (bag : Bag) : Bags :=
  ⟨writeAt bags.states number bag⟩

end Bags

structure Call where
  data : Json
  /-- The claim on an instance of a pooled program. -/
  ticket : Option Nat
  /-- The instance that the call works on, once it got one. -/
  seat : Option Nat
  job : Job Evaluation

structure Calls where
  program : Program
  pool : Option (Pool Nat)
  bags : Bags
  calls : List Call

namespace Calls

def new (program : Program) (top : Bool) (max : Option Nat) : Calls :=
  { program
    pool :=
      if top && program.needsPool then
        some (.new (max.getD program.engine.options.poolMax) [0] fun n => n + 1)
      else none
    bags := .empty
    calls := [] }

def setCall (calls : Calls) (number : Nat) (call : Call) : Calls :=
  { calls with calls := calls.calls.set number call }

def setPool (calls : Calls) (pool : Pool Nat) : Calls :=
  { calls with pool := some pool }

def setBag (calls : Calls) (seat : Nat) (bag : Bag) : Calls :=
  { calls with bags := calls.bags.write seat bag }

def start (calls : Calls) (data : Json) (cancelled : Bool) : Nat × Calls :=
  let job := Job.new (calls.program.call data) cancelled
  match calls.pool with
  | none =>
      (calls.calls.length, { calls with calls := calls.calls ++ [⟨data, none, none, job⟩] })
  | some pool =>
      let (ticket, pool) := pool.enter
      (calls.calls.length,
        { calls with pool := some pool, calls := calls.calls ++ [⟨data, some ticket, none, job⟩] })

def pollAlone (calls : Calls) (number : Nat) (call : Call) (world : World) :
    JobAnswer Evaluation × Calls × World :=
  let (answer, job, world) := call.job.poll world
  (answer, calls.setCall number { call with job }, world)

/-- Poll the evaluation of a call on its instance, with the state that it finds there.  The instance
goes back when the evaluation ends. -/
def pollSeated (calls : Calls) (number : Nat) (call : Call) (pool : Pool Nat) (ticket seat : Nat)
    (world : World) : JobAnswer Evaluation × Calls × World :=
  let (answer, job, world) := Job.poll { call.job with bag := calls.bags.read seat } world
  let calls := (calls.setBag seat job.bag).setCall number { call with seat := some seat, job }
  match answer with
  | .finished result => (.finished result, calls.setPool (pool.drop ticket), world)
  | answer => (answer, calls, world)

def poll (calls : Calls) (number : Nat) (world : World) : JobAnswer Evaluation × Calls × World :=
  match calls.calls[number]? with
  | none => (.over, calls, world)
  | some call =>
      if call.job.isOver then (.over, calls, world)
      else
        match calls.pool, call.ticket with
        | some pool, some ticket =>
            match call.seat with
            | some seat => calls.pollSeated number call pool ticket seat world
            | none =>
                match pool.poll ticket call.job.cancelled with
                | (.held seat, pool) =>
                    -- The instance comes as the call before left it.
                    ((calls.setPool pool).setBag seat []).pollSeated number call pool ticket seat
                      world
                | (.waiting, pool) => (.pending, calls.setPool pool, world)
                | (.cancelled, pool) =>
                    (.finished (.error .cancelled),
                      (calls.setPool pool).setCall number { call with job := call.job.drop }, world)
                | (.gone, pool) => (.over, calls.setPool pool, world)
        | _, _ => calls.pollAlone number call world

def cancel (calls : Calls) (number : Nat) : Calls :=
  match calls.calls[number]? with
  | none => calls
  | some call => calls.setCall number { call with job := call.job.cancel }

def drop (calls : Calls) (number : Nat) : Bool × Calls :=
  match calls.calls[number]? with
  | none => (false, calls)
  | some call =>
      if call.job.isOver then (false, calls)
      else
        let dropped := calls.setCall number { call with job := call.job.drop }
        match calls.pool, call.ticket with
        | some pool, some ticket => (true, dropped.setPool (pool.drop ticket))
        | _, _ => (true, dropped)

def pollUntilOver (calls : Calls) (number : Nat) (world : World) :
    Nat → JobAnswer Evaluation × Calls × World
  | 0 => (.pending, calls, world)
  | polls + 1 =>
      match calls.poll number world with
      | (.pending, calls, world) => calls.pollUntilOver number world polls
      | ended => ended

/-- The form in which a program is shown, with the numbers of its pool when it has one. -/
def describe (calls : Calls) : String :=
  match calls.pool with
  | none => "Direct(" ++ calls.program.describe ++ ")"
  | some pool =>
      "Pooled \x7b program: " ++ calls.program.describe ++
        ", checked_out: " ++ toString pool.checkedOut ++
        ", idle: " ++ toString pool.idle ++ " \x7d"

end Calls
end DecisionLogic
