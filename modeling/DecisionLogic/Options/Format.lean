import DecisionLogic.Json.Reader
import DecisionLogic.Options.Ini
import DecisionLogic.Options.Json5
import DecisionLogic.Options.Ron
import DecisionLogic.Options.Toml
import DecisionLogic.Options.Yaml

/-!
# Formats of configuration files

The ending of a file's name tells the format of its text.
-/

namespace DecisionLogic

mutual

/-- The setting that a JSON value stands for.  An integer beyond 63 bits becomes a double. -/
def Setting.ofJson : Json → Setting
  | .null => .nothing
  | .bool value => .boolean value
  | .number (.integer n) => if Text.isInteger64 n.val then .integer n.val else .real n.toFloat
  | .number (.double x) => .real x.val
  | .string text => .text text
  | .array items => .list (settingsOfItems items)
  | .object fields => .table (settingsOfFields fields)

def settingsOfItems : List Json → List Setting
  | [] => []
  | item :: items => Setting.ofJson item :: settingsOfItems items

def settingsOfFields : List (String × Json) → Fields Setting
  | [] => []
  | (key, value) :: fields => (key, Setting.ofJson value) :: settingsOfFields fields

end

def Setting.table? : Setting → Option (Fields Setting)
  | .table entries => some entries
  | _ => none

inductive Format where
  | toml
  | json
  | yaml
  | ini
  | ron
  | json5
deriving DecidableEq, Repr

namespace Format

def byEnding : List (String × Format) := [
  ("toml", .toml),
  ("json", .json),
  ("yaml", .yaml),
  ("yml", .yaml),
  ("ini", .ini),
  ("ron", .ron),
  ("json5", .json5)]

def ofEnding? (ending : String) : Option Format :=
  Fields.find? byEnding ending

def read? (format : Format) (text : String) : Option (Fields Setting) :=
  match format with
  | .toml => Toml.read? text
  | .json => (Json.read? Json.usualLevels text).bind fun value => (Setting.ofJson value).table?
  | .yaml => Yaml.read? text
  | .ini => Ini.read? text
  | .ron => Ron.read? text
  | .json5 => Json5.read? text

end Format
end DecisionLogic
