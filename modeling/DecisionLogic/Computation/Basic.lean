import DecisionLogic.Operator.Input

/-!
# Computations

A computation advances when it is polled.  One poll runs it on the current world until it finishes
or has to wait; while it waits, a test on the world says whether a poll is to go on, and a poll that
comes too early changes nothing.

`Computation.joinAll` runs those of a list together: one poll of the whole polls each unfinished
part once, in order, and the first part to fail ends it at once.
-/

namespace DecisionLogic

/-- What an evaluation finds when it is polled, and may change. -/
structure World where
  /-- The state that the operators of one invocation share. -/
  bag : Fields Json
  cancelled : Bool
  nextPoint : Nat
  trace : List Invocation

abbrev Action (α : Type) : Type :=
  ExceptT Failure (StateM World) α

/-- Where a computation stands after a poll: it has finished, or it waits until a poll finds the
world `ready` and then goes on with `rest`. -/
inductive Moment (α : Type) where
  | finished (world : World) (result : Except Failure α)
  | waiting (world : World) (ready : World → Bool) (rest : World → Moment α)

def Computation (α : Type) : Type :=
  World → Moment α

namespace Moment

variable {α β : Type}

def world : Moment α → World
  | .finished world _ => world
  | .waiting world _ _ => world

def result? : Moment α → Option (Except Failure α)
  | .finished _ result => some result
  | .waiting _ _ _ => none

def poll : Moment α → World → Moment α
  | .finished _ result, world => .finished world result
  | .waiting _ ready rest, world => if ready world then rest world else .waiting world ready rest

/-- The computation that goes on with `next` in the same poll in which this one finishes. -/
def andThen (next : α → Computation β) : Moment α → Moment β
  | .finished world (.ok x) => next x world
  | .finished world (.error failure) => .finished world (.error failure)
  | .waiting world ready rest => .waiting world ready fun later => (rest later).andThen next

def mapResult (f : Except Failure α → Except Failure β) : Moment α → Moment β
  | .finished world result => .finished world (f result)
  | .waiting world ready rest => .waiting world ready fun later => (rest later).mapResult f

/-- Look at the token before each further poll, and end when it has fired. -/
def guarded : Moment α → Moment α
  | .finished world result => .finished world result
  | .waiting world ready rest =>
      .waiting world (fun later => later.cancelled || ready later) fun later =>
        if later.cancelled then .finished later (.error .cancelled) else (rest later).guarded

/-- The remaining computations of a list while its first one waits for `ready`; `resume` polls the
first one again and then the computation it is given. -/
def besideWaiting (ready : World → Bool)
    (resume : World → Computation (List α) → Moment (List α)) : Moment (List α) → Moment (List α)
  | .finished world (.error failure) => .finished world (.error failure)
  | .finished world (.ok xs) =>
      .waiting world ready fun later => resume later fun next => .finished next (.ok xs)
  | .waiting world ready' rest =>
      .waiting world (fun later => ready later || ready' later) fun later =>
        if ready later then
          resume later fun next => if ready' next then rest next else .waiting next ready' rest
        else (rest later).besideWaiting ready resume

/-- The first computation of a list joined with the others; each poll of these comes after one of
the first. -/
def beside : Moment α → Computation (List α) → Moment (List α)
  | .finished world (.error failure), _ => .finished world (.error failure)
  | .finished world (.ok x), others => (others world).mapResult fun result => result.map (x :: ·)
  | .waiting world ready rest, others =>
      (others world).besideWaiting ready fun later others => (rest later).beside others

end Moment

namespace Computation

variable {α β : Type}

protected def pure (x : α) : Computation α :=
  fun world => .finished world (.ok x)

protected def bind (computation : Computation α) (next : α → Computation β) : Computation β :=
  fun world => (computation world).andThen next

instance : Monad Computation where
  pure := Computation.pure
  bind := Computation.bind

def fail (failure : Failure) : Computation α :=
  fun world => .finished world (.error failure)

def ofAction (action : Action α) : Computation α :=
  fun world =>
    match action.run.run world with
    | (result, world) => .finished world result

def ofExcept : Except Failure α → Computation α
  | .ok x => Computation.pure x
  | .error failure => fail failure

def mapFailure (f : Failure → Failure) (computation : Computation α) : Computation α :=
  fun world => (computation world).mapResult fun result => result.mapError f

def pause : Nat → Computation Unit
  | 0 => Computation.pure ()
  | polls + 1 => fun world => .waiting world (fun _ => true) (pause polls)

def never : Computation α :=
  fun world => .waiting world (fun _ => false) (fail .cancelled)

def checkCancelled : Computation Unit :=
  fun world => .finished world (if world.cancelled then .error .cancelled else .ok ())

/-- The computation, with a look at the token before each of its polls. -/
def cancellable (computation : Computation α) : Computation α :=
  fun world =>
    if world.cancelled then .finished world (.error .cancelled) else (computation world).guarded

/-- All computations of a list at once, with their results in its order.  Lists of every length are
taken to be polled in order, and to fail as soon as one of their parts does.  A library may poll the
parts of a long list as they become ready instead, and look at their failures in the order of the
list. -/
def joinAll : List (Computation α) → Computation (List α)
  | [] => Computation.pure []
  | computation :: computations => fun world => (computation world).beside (joinAll computations)

def now (computation : Computation α) : Action α :=
  ExceptT.mk fun world =>
    match computation world with
    | .finished world result => (result, world)
    | .waiting world _ _ => (.error .notSynchronous, world)

end Computation

namespace World

/-- A world in which nothing has happened, with a supply of points that starts at `nextPoint`. -/
def start (nextPoint : Nat) : World :=
  ⟨[], false, nextPoint, []⟩

def record (world : World) (invocation : Invocation) : World :=
  { world with trace := invocation :: world.trace }

end World

namespace Action

def freshPoint : Action PointId :=
  ExceptT.mk fun world =>
    (.ok (PointId.fresh world.nextPoint), { world with nextPoint := world.nextPoint + 1 })

def getBag : Action (Fields Json) :=
  ExceptT.mk fun world => (.ok world.bag, world)

def setBag (bag : Fields Json) : Action Unit :=
  ExceptT.mk fun world => (.ok (), { world with bag })

def isCancelled : Action Bool :=
  ExceptT.mk fun world => (.ok world.cancelled, world)

def cancel : Action Unit :=
  ExceptT.mk fun world => (.ok (), { world with cancelled := true })

end Action
end DecisionLogic
