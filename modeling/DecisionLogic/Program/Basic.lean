import DecisionLogic.Program.Compiled

/-!
# Programs

A program is a compiled tree bound to the engine that built it.  It is sync when no operator in the
tree is async; only then it can be called without waiting.
-/

namespace DecisionLogic

inductive ProgramKind where
  | sync
  | async
deriving DecidableEq

def ProgramKind.ofNeeds (needs : Needs) : ProgramKind :=
  if needs.async then .async else .sync

def ProgramKind.word : ProgramKind → String
  | .sync => "sync"
  | .async => "async"

structure Program where
  root : Compiled
  kind : ProgramKind
  /-- Some operator keeps state for the invocation. -/
  stateful : Bool
  fingerprint : String
  engine : Engine
  /-- The data around the data of each call, nearest first. -/
  above : List Json

namespace Program

/-- Parse and compile a tree.  Calls completed while compiling run in `world`; the world that they
leave is returned too. -/
def build (engine : Engine) (logic : Json) (above : List Json) (world : World) :
    Except Failure Program × World :=
  match Logic.parseBounded engine.options.maxDepth logic with
  | .error failure => (.error failure, world)
  | .ok node =>
      match (Compiled.ofLogic engine 0 node).run.run ⟨.none, 0, world⟩ with
      | (.error failure, findings) => (.error failure, findings.world)
      | (.ok root, findings) =>
          (.ok
            { root
              kind := .ofNeeds findings.needs
              stateful := findings.needs.state
              fingerprint := Logic.fingerprint logic
              engine
              above },
            findings.world)

def call (program : Program) (data : Json) : Computation Evaluation :=
  program.root.execute program.engine (.withAbove data program.above)

def callSync (program : Program) (data : Json) : Action Evaluation :=
  match program.kind with
  | .async => throw .notSynchronous
  | .sync => (program.call data).now

/-- An async program that keeps state gets an instance of its own for each call. -/
def needsPool (program : Program) : Bool :=
  program.kind = .async && program.stateful

def describe (program : Program) : String :=
  let kind :=
    match program.kind with
    | .sync => "Sync"
    | .async => "Async"
  "CompiledProgram \x7b kind: " ++ kind ++ ", stateful: " ++ toString program.stateful ++
    ", fingerprint: " ++ Text.quoted program.fingerprint ++ " \x7d"

end Program

/-- Whether a tree can reach an operator that is not sync, without compiling it. -/
def Engine.classify (engine : Engine) (node : Logic) : Except Failure ProgramKind :=
  (Needs.scan engine .none false 0 node).map ProgramKind.ofNeeds

/-- Evaluate without waiting.  Logic that can reach an async operator is refused before anything
runs. -/
def Engine.runSync (engine : Engine) (logic data : Json) (above : List Json) :
    Action Evaluation := do
  let node ← liftM (Logic.parseBounded engine.options.maxDepth logic)
  let kind ← liftM (engine.classify node)
  match kind with
  | .async => throw .notSynchronous
  | .sync => (engine.runLogic node data above).now

end DecisionLogic
