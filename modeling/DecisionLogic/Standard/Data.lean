import DecisionLogic.Standard.Arguments
import DecisionLogic.Standard.Relation

/-!
# Data operators

Access to the scope, text and arrays.
-/

namespace DecisionLogic.Standard

/-- The path that a value names: text as it is, a number by its JSON text, null the empty path. -/
def pathOf (operator : String) : Json → Except Failure String
  | .null => .ok ""
  | .string path => .ok path
  | .number n => .ok n.text
  | value =>
      .error (.invalidArguments operator ("path must be a string or number, got " ++ value.compact))

def readVariable (args : List Json) (scope : Scope) : Except Failure Json := do
  let path ← pathOf "var" (argument args 0)
  let value ← scope.resolve path
  return if value.isNull then argument args 1 else value

def isAbsent : Json → Bool
  | .null => true
  | .string text => text.isEmpty
  | _ => false

def absentPaths (scope : Scope) : List Json → Except Failure (List Json)
  | [] => .ok []
  | path :: paths => do
      let value ← scope.resolve (← pathOf "missing" path)
      let rest ← absentPaths scope paths
      return if isAbsent value then path :: rest else rest

/-- The paths are the arguments, or the items of a first argument that is an array. -/
def missing (args : List Json) (scope : Scope) : Except Failure Json :=
  let paths :=
    match args with
    | .array paths :: _ => paths
    | args => args
  (absentPaths scope paths).map .array

def preserve : ImmediateBody :=
  fun input _ _ => pure (.value input.toJson)

def concatenate (args : List Json) : Except Failure Json :=
  .ok (.string (String.join (args.map toText)))

def occursIn (needle : List Char) : List Char → Bool
  | [] => needle.isEmpty
  | c :: cs => needle.isPrefixOf (c :: cs) || occursIn needle cs

/-- The first argument occurs in the second: its text in a text, or itself in an array. -/
def contains (needle : Json) : Json → Bool
  | .string text => occursIn (toText needle).toList text.toList
  | .array items => items.any fun item => strictlyEqual item needle
  | _ => false

/-- One array of all arguments, arrays among them replaced by their items. -/
def merge (args : List Json) : Except Failure Json :=
  .ok (.array (args.flatMap fun value =>
    match value with
    | .array items => items
    | value => [value]))

def dataEntries : List Entry := [
  ⟨"var", { immediate := some (ofScope readVariable) }, {}⟩,
  ⟨"missing", { immediate := some (ofScope missing) }, {}⟩,
  ⟨"preserve", { immediate := some preserve, traverse := false },
    { deterministic := true, rawData := true }⟩,
  pureEntry "cat" concatenate,
  pureEntry "in" fun args => .ok (.bool (contains (argument args 0) (argument args 1))),
  pureEntry "merge" merge]

end DecisionLogic.Standard
