import DecisionLogic.Json.Fields
import DecisionLogic.Text.Numeral

/-!
# Arguments of the command line

The words of a command line are a command and named arguments.  A named argument starts with two
dashes; it is a flag, or it has a value, which is the next word or follows an equals sign.  The
arguments that belong to every command may stand before the command too, and each argument may
stand once before and once behind it.
-/

namespace DecisionLogic.CommandLine

inductive Command where
  | run (logic data : String) (compiled : Bool)
  /-- Compile logic and show how it was classified. -/
  | build (logic : String)
  | bench (logic data : String) (invocations concurrency : Nat)
  | config

structure Arguments where
  config : Option String
  yieldSupported : Bool
  disableInline : Bool
  command : Command

inductive Form where
  | flag
  | valued

abbrev Given : Type :=
  Fields String

namespace Given

/-- Read named arguments, each at most once, up to the first word that is none; the rest of the
words is returned. -/
def read? (forms : Fields Form) (given : Given) : List String → Option (Given × List String)
  | [] => some (given, [])
  | word :: rest =>
      match word.toList with
      | '-' :: '-' :: c :: cs =>
          let (name, attached) := (c :: cs).span fun c => c ≠ '='
          let name := String.ofList name
          if given.has name then none
          else
            match forms.find? name, attached, rest with
            | some .flag, [], rest => read? forms (given.insert name "") rest
            | some .valued, _ :: value, rest =>
                read? forms (given.insert name (String.ofList value)) rest
            | some .valued, [], value :: rest =>
                if value.startsWith "-" && value ≠ "-" then none
                else read? forms (given.insert name value) rest
            | _, _, _ => none
      | _ => some (given, word :: rest)

def count? (given : Given) (name : String) (default : Nat) : Option Nat :=
  match given.find? name with
  | none => some default
  | some numeral => Text.natural64? numeral.toList

end Given

def sharedForms : Fields Form :=
  [("config", .valued), ("yield-supported", .flag), ("disable-inline", .flag)]

namespace Command

def forms? (command : String) : Option (Fields Form) :=
  Fields.find? [
    ("run", [("logic", .valued), ("data", .valued), ("compiled", .flag)]),
    ("build", [("logic", .valued)]),
    ("bench",
      [("logic", .valued), ("data", .valued), ("invocations", .valued), ("concurrency", .valued)]),
    ("config", [])] command

/-- The command of a name with its arguments; the data is an empty mapping unless it is given. -/
def ofGiven? (command : String) (given : Given) : Option Command := do
  let data := (given.find? "data").getD "\x7b\x7d"
  match command with
  | "run" => return .run (← given.find? "logic") data (given.has "compiled")
  | "build" => return .build (← given.find? "logic")
  | "bench" =>
      return .bench (← given.find? "logic") data (← given.count? "invocations" 10000)
        (← given.count? "concurrency" 100)
  | "config" => return .config
  | _ => none

end Command

namespace Arguments

/-- The arguments that the words stand for.  Behind the last argument two dashes may stand alone. -/
def read? (words : List String) : Option Arguments := do
  let (before, rest) ← Given.read? sharedForms [] words
  match rest with
  | [] => none
  | name :: rest =>
      let (behind, rest) ← Given.read? (sharedForms ++ (← Command.forms? name)) [] rest
      let command ← Command.ofGiven? name behind
      let config := [behind.find? "config", before.find? "config"]
      if ¬ (rest = [] ∨ rest = ["--"]) ∨ some "" ∈ config then none
      else
        return {
          config := config.findSome? id
          yieldSupported := before.has "yield-supported" || behind.has "yield-supported"
          disableInline := before.has "disable-inline" || behind.has "disable-inline"
          command }

end Arguments
end DecisionLogic.CommandLine
