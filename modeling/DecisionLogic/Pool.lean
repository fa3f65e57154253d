/-!
# Bounded pools

A pool hands out instances.  A claim takes a free instance, has one made while fewer than `max` are
out, or waits in a queue.  An instance that comes back goes straight to the longest waiting claim,
or else to the free ones.  A claim that is dropped gives back what it holds, and also what it
was sent but did not receive yet.  One that is dropped while it waits stays in the queue and is
passed over when its turn comes.
-/

namespace DecisionLogic

inductive Claim (α : Type) where
  | unpolled
  | queued
  /-- An instance was sent; the next poll receives it. -/
  | offered (item : α)
  | held (item : α)
  | gone
deriving DecidableEq

def Claim.isQueued {α : Type} : Claim α → Bool
  | .queued => true
  | _ => false

structure Pool (α : Type) where
  max : Nat
  max_pos : 0 < max
  create : Nat → α
  created : Nat
  /-- Free instances, the one to be taken next first. -/
  free : List α
  checkedOut : Nat
  /-- The numbers of the claims that had to wait, the longest waiting one first. -/
  queue : List Nat
  claims : List (Claim α)

inductive ClaimAnswer (α : Type) where
  | held (item : α)
  | waiting
  | cancelled
  | gone

namespace Pool

variable {α : Type}

/-- A pool with some instances at its start; a bound of zero would admit nobody and counts as one.
-/
def new (max : Nat) (initialFree : List α) (create : Nat → α) : Pool α :=
  { max := Nat.max max 1
    max_pos := Nat.lt_of_lt_of_le Nat.one_pos (Nat.le_max_right _ _)
    create
    created := 0
    free := initialFree.reverse
    checkedOut := 0
    queue := []
    claims := [] }

def idle (pool : Pool α) : Nat :=
  pool.free.length

def claim (pool : Pool α) (ticket : Nat) : Claim α :=
  pool.claims.getD ticket .gone

def waiting (pool : Pool α) : Nat :=
  (pool.queue.filter fun ticket => (pool.claim ticket).isQueued).length

def setClaim (pool : Pool α) (ticket : Nat) (claim : Claim α) : Pool α :=
  { pool with claims := pool.claims.set ticket claim }

def enter (pool : Pool α) : Nat × Pool α :=
  (pool.claims.length, { pool with claims := pool.claims ++ [.unpolled] })

/-- Send an instance to the first claim of `queue` that still waits, which takes over its place
among those that are out; when there is none, the instance becomes free. -/
def handOver (pool : Pool α) (item : α) : List Nat → Pool α
  | [] => { pool with queue := [], checkedOut := pool.checkedOut - 1, free := item :: pool.free }
  | ticket :: rest =>
      if (pool.claim ticket).isQueued then
        { pool with queue := rest }.setClaim ticket (.offered item)
      else pool.handOver item rest

def release (pool : Pool α) (item : α) : Pool α :=
  pool.handOver item pool.queue

def acquire (pool : Pool α) (ticket : Nat) : Pool α :=
  match pool.free with
  | item :: rest =>
      { pool with free := rest, checkedOut := pool.checkedOut + 1 }.setClaim ticket (.held item)
  | [] =>
      if pool.checkedOut < pool.max then
        { pool with checkedOut := pool.checkedOut + 1, created := pool.created + 1 }.setClaim
          ticket (.held (pool.create pool.created))
      else { pool with queue := pool.queue ++ [ticket] }.setClaim ticket .queued

def drop (pool : Pool α) (ticket : Nat) : Pool α :=
  match pool.claim ticket with
  | .unpolled => pool.setClaim ticket .gone
  | .queued => pool.setClaim ticket .gone
  | .offered item => (pool.setClaim ticket .gone).release item
  | .held item => (pool.setClaim ticket .gone).release item
  | .gone => pool

def answer (pool : Pool α) (ticket : Nat) : ClaimAnswer α :=
  match pool.claim ticket with
  | .held item => .held item
  | .gone => .gone
  | _ => .waiting

/-- Poll a claim.  Unless it holds an instance already, a fired token ends it first. -/
def poll (pool : Pool α) (ticket : Nat) (cancelled : Bool) : ClaimAnswer α × Pool α :=
  match pool.claim ticket with
  | .held item => (.held item, pool)
  | .gone => (.gone, pool)
  | .unpolled =>
      if cancelled then (.cancelled, pool.drop ticket)
      else
        let pool := pool.acquire ticket
        (pool.answer ticket, pool)
  | .queued => if cancelled then (.cancelled, pool.drop ticket) else (.waiting, pool)
  | .offered item =>
      if cancelled then (.cancelled, pool.drop ticket)
      else (.held item, pool.setClaim ticket (.held item))

def replace (pool : Pool α) (ticket : Nat) (item : α) : Pool α :=
  match pool.claim ticket with
  | .held _ => pool.setClaim ticket (.held item)
  | _ => pool

def describe (pool : Pool α) : String :=
  "Pool \x7b max: " ++ toString pool.max ++ " \x7d"

def describeHeld (pool : Pool α) (item : String) : String :=
  "PoolGuard \x7b item: Some(" ++ item ++ "), pool: " ++ pool.describe ++ " \x7d"

end Pool
end DecisionLogic
