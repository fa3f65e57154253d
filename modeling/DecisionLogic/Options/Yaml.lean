import DecisionLogic.Double.Decimal
import DecisionLogic.Json.Fields
import DecisionLogic.Options.Setting
import DecisionLogic.Options.Yaml.Document

/-!
# YAML

Reading a text of one document, which is a mapping.  A text without a document is an empty table.
-/

namespace DecisionLogic.Yaml

def Node.name? : Node → Option String
  | .text name => some name
  | .integer n => some (toString n)
  | .boolean b => some (toString b)
  | .real word => some word
  | _ => none

mutual

/-- The setting of a node.  A real has to be written as a number, and keys as scalars. -/
def Node.setting? : Node → Option Setting
  | .bad => some .nothing
  | .null => some .nothing
  | .boolean b => some (.boolean b)
  | .integer n => some (.integer n)
  | .real word => (Double.read? word.toList).map .real
  | .text text => some (.text text)
  | .sequence items => (settingsOf? items).map .list
  | .mapping entries => (tableOf? entries []).map .table

def settingsOf? : List Node → Option (List Setting)
  | [] => some []
  | node :: nodes => do
      let setting ← node.setting?
      return setting :: (← settingsOf? nodes)

def tableOf? : List (Node × Node) → Fields Setting → Option (Fields Setting)
  | [], table => some table
  | (key, value) :: entries, table => do
      let name ← key.name?
      tableOf? entries (table.insert name (← value.setting?))

end

def read? (text : String) : Option (Fields Setting) := do
  match ← documents? (← tokens? text) with
  | [] => return []
  | [root] =>
      match ← root.setting? with
      | .table fields => return fields
      | _ => none
  | _ => none

end DecisionLogic.Yaml
