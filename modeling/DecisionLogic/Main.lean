import DecisionLogic.CommandLine.Run

/-!
# The program

Reads the files and environment variables that the command line refers to and prints the report.
-/

namespace DecisionLogic.Main

def variableNames : List String := [
  Surroundings.fileVariable,
  "VERDICT__YIELD_SUPPORTED",
  "VERDICT__DISABLE_INLINE",
  "VERDICT__POOL_MAX",
  "VERDICT__MAX_DEPTH"]

def lookUpAll (lookUp : String → IO (Option String)) (names : List String) :
    IO (Fields String) :=
  names.filterMapM fun name => do
    return (← lookUp name).map fun text => (name, text)

def readFile (path : String) : IO (Option String) := do
  try
    return some (← IO.FS.readFile path)
  catch _ =>
    return none

/-- Execute the arguments in the surroundings of the process; the exit code tells success. -/
def execute (arguments : CommandLine.Arguments) : IO UInt32 := do
  let environment ← lookUpAll (fun name => IO.getEnv name) variableNames
  let options := (environment.find? Surroundings.fileVariable).toList.flatMap
    Surroundings.optionsPaths
  let files ← lookUpAll readFile (arguments.paths ++ options)
  let report := arguments.execute ⟨files, environment⟩
  report.lines.forM IO.println
  match report.problem with
  | none => return 0
  | some problem =>
      IO.eprintln ("Error: " ++ problem.message)
      return 1

end DecisionLogic.Main

def main (words : List String) : IO UInt32 :=
  match DecisionLogic.CommandLine.Arguments.read? words with
  | some arguments => DecisionLogic.Main.execute arguments
  | none => do
      IO.eprintln ("Usage: verdict [--config PATH] [--yield-supported] [--disable-inline] " ++
        "run|build|bench|config")
      return 2
