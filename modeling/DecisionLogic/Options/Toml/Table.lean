import DecisionLogic.Options.Toml.Scalar
import DecisionLogic.Json.Fields

/-!
# Tables of TOML

A document fills nested tables.  Dotted keys and headers make the tables on their way.  A dotted key
may pass a table that a header made on its way, but ends in a table that dotted keys made; a header
may pass every table but one in braces, and opens a new table or one that headers made on their way.
-/

namespace DecisionLogic.Toml

inductive Origin where
  | implied
  | opened
  | dotted
  | braces
deriving DecidableEq

inductive Node where
  | scalar (setting : Setting)
  | moment (text : String)
  | list (items : List Node)
  | table (origin : Origin) (entries : List (String × Node))
  /-- Tables that headers opened under one name, the last one apart. -/
  | tables (before : List Node) (last : List (String × Node))

abbrev Entries : Type :=
  Fields Node

/-! ## Writing -/

namespace Entries

def assign (value : Node) : List String → Entries → Option Entries
  | [], _ => none
  | [key], entries =>
      match entries.find? key with
      | none => some (entries.insert key value)
      | some _ => none
  | key :: keys, entries =>
      let change (inner : Entries) (table : Entries → Node) : Option Entries :=
        (assign value keys inner).map fun inner => entries.insert key (table inner)
      let passing := keys.length ≠ 1
      match entries.find? key with
      | none => change [] (.table .dotted)
      | some (.table .dotted inner) => change inner (.table .dotted)
      | some (.table .implied inner) => if passing then change inner (.table .implied) else none
      | some (.tables before last) => if passing then change last (.tables before) else none
      | some _ => none

def assignIn (keys : List String) (value : Node) : List String → Entries → Option Entries
  | [], entries => assign value keys entries
  | name :: header, entries =>
      match entries.find? name with
      | some (.table origin inner) =>
          (assignIn keys value header inner).map fun inner =>
            entries.insert name (.table origin inner)
      | some (.tables before last) =>
          (assignIn keys value header last).map fun last =>
            entries.insert name (.tables before last)
      | _ => none

def changeHolder (change : String → Entries → Option Entries) :
    List String → Entries → Option Entries
  | [], _ => none
  | [name], entries => change name entries
  | name :: header, entries =>
      match entries.find? name with
      | none =>
          (changeHolder change header []).map fun inner =>
            entries.insert name (.table .implied inner)
      | some (.table .braces _) => none
      | some (.table origin inner) =>
          (changeHolder change header inner).map fun inner =>
            entries.insert name (.table origin inner)
      | some (.tables before last) =>
          (changeHolder change header last).map fun last =>
            entries.insert name (.tables before last)
      | some _ => none

/-- Open the table that a header names.  It comes last among the tables beside it. -/
def openTable (header : List String) (entries : Entries) : Option Entries :=
  entries.changeHolder (fun name holder =>
    match holder.find? name with
    | none => some (holder.insert name (.table .opened []))
    | some (.table .implied inner) => some ((holder.erase name).insert name (.table .opened inner))
    | some _ => none) header

/-- Open one more table under the name of a header in double brackets. -/
def appendTable (header : List String) (entries : Entries) : Option Entries :=
  entries.changeHolder (fun name holder =>
    match holder.find? name with
    | none => some (holder.insert name (.tables [] []))
    | some (.tables before last) =>
        some (holder.insert name (.tables (before ++ [.table .opened last]) []))
    | some _ => none) header

end Entries

/-! ## Settings -/

/-- A table that starts with this key stands for the moment in the text under it. -/
def momentKey : String :=
  "$__toml_private_datetime"

mutual

def Node.toSetting? : Node → Option Setting
  | .scalar setting => some setting
  | .moment text => some (.text text)
  | .list items => (itemsToSettings? items).map .list
  | .table _ entries => entriesToSetting? entries
  | .tables before last => do
      let before ← itemsToSettings? before
      let last ← entriesToSetting? last
      return .list (before ++ [last])

def itemsToSettings? : List Node → Option (List Setting)
  | [] => some []
  | item :: items => do
      let setting ← item.toSetting?
      let settings ← itemsToSettings? items
      return setting :: settings

def fieldsToSettings? : List (String × Node) → Option (Fields Setting)
  | [] => some []
  | (key, node) :: rest => do
      let setting ← node.toSetting?
      let settings ← fieldsToSettings? rest
      return (key, setting) :: settings

def entriesToSetting? : List (String × Node) → Option Setting
  | [] => some (.table [])
  | (key, node) :: rest =>
      if key = momentKey then
        match node with
        | .scalar (.text text) => if isMomentText text then some (.text text) else none
        | _ => none
      else do
        let setting ← node.toSetting?
        let settings ← fieldsToSettings? rest
        return .table ((key, setting) :: settings)

end
end DecisionLogic.Toml
