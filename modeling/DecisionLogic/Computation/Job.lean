import DecisionLogic.Computation.Basic

/-!
# Jobs

A job is a computation on its way, with the state and the token of its invocation.  The supply of
suspension points and the trace belong to all jobs; they are taken from the world of the poll and
handed back with it.
-/

namespace DecisionLogic

inductive Progress (α : Type) where
  | unstarted (computation : Computation α)
  | running (moment : Moment α)
  | over

structure Job (α : Type) where
  bag : Fields Json
  cancelled : Bool
  progress : Progress α

inductive JobAnswer (α : Type) where
  | finished (result : Except Failure α)
  | pending
  | over

namespace Job

variable {α : Type}

def new (computation : Computation α) (cancelled : Bool) : Job α :=
  ⟨[], cancelled, .unstarted computation⟩

def cancel (job : Job α) : Job α :=
  { job with cancelled := true }

def drop (job : Job α) : Job α :=
  { job with progress := .over }

def isOver (job : Job α) : Bool :=
  match job.progress with
  | .over => true
  | _ => false

def settle : Moment α → JobAnswer α × Job α × World
  | .finished world result => (.finished result, ⟨world.bag, world.cancelled, .over⟩, world)
  | .waiting world ready rest =>
      (.pending, ⟨world.bag, world.cancelled, .running (.waiting world ready rest)⟩, world)

def poll (job : Job α) (world : World) : JobAnswer α × Job α × World :=
  let own := { world with bag := job.bag, cancelled := job.cancelled }
  match job.progress with
  | .unstarted computation => settle (computation own)
  | .running moment => settle (moment.poll own)
  | .over => (.over, job, world)

def pollUntilOver (job : Job α) (world : World) : Nat → JobAnswer α × Job α × World
  | 0 => (.pending, job, world)
  | polls + 1 =>
      match job.poll world with
      | (.pending, job, world) => job.pollUntilOver world polls
      | ended => ended

end Job
end DecisionLogic
