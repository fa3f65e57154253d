import DecisionLogic.Options.Format
import DecisionLogic.Options.Layers
import DecisionLogic.Surroundings

/-!
# Loading options

The file and the environment variables that options are loaded from.  A file that is named has to
exist, either under that name or with the ending of a format added.
-/

namespace DecisionLogic

namespace Surroundings

def fileVariable : String :=
  "VERDICT_CONFIG_PATH"

/-- The path of the file of options: the given one, or else the one that a variable names. -/
def optionsPath? (surroundings : Surroundings) (given : Option String) : Option String :=
  given.or (surroundings.environment.find? fileVariable)

/-- The paths at which a file of options is looked for when none is at the given one, and their
formats. -/
def completions (path : String) : List (String × Format) :=
  Format.byEnding.filterMap fun (ending, format) =>
    (FilePath.addEnding? path ending).map fun path => (path, format)

def optionsPaths (path : String) : List String :=
  path :: (completions path).map Prod.fst

def optionsText? (surroundings : Surroundings) (path : String) : Option (String × Format) :=
  match surroundings.file? path with
  | some text => do
      let ending ← FilePath.ending? path
      let format ← Format.ofEnding? ending
      return (text, format)
  | none =>
      (completions path).findSome? fun (path, format) =>
        (surroundings.file? path).map fun text => (text, format)

def fileLayer (surroundings : Surroundings) (given : Option String) : Except Failure Layer :=
  match surroundings.optionsPath? given with
  | none => .ok []
  | some path =>
      match (surroundings.optionsText? path).bind fun (text, format) => format.read? text with
      | some settings => .ok (.ofSettings settings)
      | none => .error (.options .unreadable)

end Surroundings

/-- Load options from the surroundings: the overrides win over the environment, this over the file,
and the file over the defaults. -/
def Options.load (surroundings : Surroundings) (given : Option String) (overrides : Overrides) :
    Except Failure Options := do
  let file ← surroundings.fileLayer given
  ofLayers [defaultLayer, file, .ofEnvironment surroundings.environment, overrides.toLayer]

end DecisionLogic
