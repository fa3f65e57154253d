import DecisionLogic.CommandLine.Arguments
import DecisionLogic.Json.Printer
import DecisionLogic.Json.Reader
import DecisionLogic.Options.Load
import DecisionLogic.Program.Basic
import DecisionLogic.Standard.Registry
import DecisionLogic.Suspension.Codec

/-!
# The command line

Each command loads the options, works on an engine with the standard operators, and reports lines of
text.  The standard operators never wait, so every call ends at its first poll.
-/

namespace DecisionLogic.CommandLine

inductive Problem where
  | options
  /-- The file that an argument names cannot be read. -/
  | missing (argument path : String)
  /-- The text of an argument, or the file that it names, is not JSON. -/
  | malformed (argument : String) (path : Option String)
  | engine (failure : Failure)
  | tooLarge

def Problem.message : Problem → String
  | .options => "Failed to load engine options"
  | .missing argument path => "Invalid --" ++ argument ++ ": Failed to read " ++ path
  | .malformed argument none => "Invalid --" ++ argument ++ ": Not valid JSON"
  | .malformed argument (some path) =>
      "Invalid --" ++ argument ++ ": " ++ path ++ " is not valid JSON"
  | .engine failure => failure.message
  | .tooLarge => "out of range value for u64 type"

/-- The lines that a command prints, and what it then fails by. -/
structure Report where
  lines : List String
  problem : Option Problem := none

/-- The value of an argument: JSON, or the name of a file of JSON behind an at sign. -/
def readValue (surroundings : Surroundings) (argument text : String) : Except Problem Json :=
  match text.toList with
  | '@' :: path =>
      let path := String.ofList path
      match surroundings.file? path with
      | none => .error (.missing argument path)
      | some text =>
          match Json.read? Json.usualLevels text with
          | some value => .ok value
          | none => .error (.malformed argument (some path))
  | _ =>
      match Json.read? Json.usualLevels text with
      | some value => .ok value
      | none => .error (.malformed argument none)

def perform {α : Type} (action : Action α) : Except Problem α :=
  (action.run.run (.start 0)).1.mapError .engine

def buildProgram (engine : Engine) (logic : Json) : Except Problem Program :=
  (Program.build engine logic [] (.start 0)).1.mapError .engine

def evaluationLines : Evaluation → List String
  | .done value => value.indented
  | .suspended suspension => (Evaluation.suspended suspension).toJson.indented

/-- Call a program `invocations` times.  All calls are alike, so one of them stands for all. -/
def bench (program : Program) (data : Json) (invocations concurrency : Nat) : Report :=
  let start := [
    "Program " ++ program.fingerprint ++ " (" ++ program.kind.word ++ ", pooled: " ++
      toString program.needsPool ++ ")",
    "   Invocations: " ++ toString invocations,
    "   Concurrency: " ++ toString (max concurrency 1)]
  if invocations = 0 then ⟨start ++ ["Completed"], none⟩
  else
    match perform (program.call data).now with
    | .error problem => ⟨start, some problem⟩
    | .ok evaluation =>
        let suspended :=
          if evaluation.isSuspended then ["   Suspended: " ++ toString invocations] else []
        ⟨start ++ "Completed" :: suspended, none⟩

def report (surroundings : Surroundings) (options : Options) : Command → Except Problem Report
  | .run logic data compiled => do
      let engine := Engine.standard options
      let logic ← readValue surroundings "logic" logic
      let data ← readValue surroundings "data" data
      let evaluation ←
        if compiled then do perform ((← buildProgram engine logic).call data).now
        else perform (engine.run logic data []).now
      return ⟨evaluationLines evaluation, none⟩
  | .build logic => do
      let program ← buildProgram (.standard options) (← readValue surroundings "logic" logic)
      return {
        lines := [
          "Fingerprint: " ++ program.fingerprint,
          "Kind: " ++ program.kind.word,
          "Stateful: " ++ toString program.stateful,
          "Pooled: " ++ toString program.needsPool] }
  | .bench logic data invocations concurrency => do
      let logic ← readValue surroundings "logic" logic
      let data ← readValue surroundings "data" data
      return bench (← buildProgram (.standard options) logic) data invocations concurrency
  | .config =>
      if Text.isInteger64 options.poolMax && Text.isInteger64 options.maxDepth then
        .ok ⟨options.lines, none⟩
      else .error .tooLarge

namespace Arguments

/-- The options that the arguments switch on; an absent flag leaves an option to the other layers.
-/
def overrides (arguments : Arguments) : Overrides :=
  { yieldSupported := if arguments.yieldSupported then some true else none
    disableInline := if arguments.disableInline then some true else none }

def execute (surroundings : Surroundings) (arguments : Arguments) : Report :=
  let result := do
    let options ← (Options.load surroundings arguments.config arguments.overrides).mapError
      fun _ => Problem.options
    report surroundings options arguments.command
  match result with
  | .ok report => report
  | .error problem => ⟨[], some problem⟩

/-- The paths at which the files are looked for that the arguments name. -/
def paths (arguments : Arguments) : List String :=
  let values :=
    match arguments.command with
    | .run logic data _ => [logic, data]
    | .build logic => [logic]
    | .bench logic data _ _ => [logic, data]
    | .config => []
  let named := values.filterMap fun text =>
    match text.toList with
    | '@' :: path => some (String.ofList path)
    | _ => none
  named ++ arguments.config.toList.flatMap Surroundings.optionsPaths

end Arguments
end DecisionLogic.CommandLine
