import DecisionLogic.Failure
import DecisionLogic.Options.Basic
import DecisionLogic.Options.KeyPath
import DecisionLogic.Options.Setting

/-!
# Layers of options

Options come from the defaults, a file, environment variables and explicit overrides.  Each of these
is a layer: a list of settings at paths.  The layers are written into one table, the lowest first,
and the options are read from that table at the end.
-/

namespace DecisionLogic

namespace Setting

def entries : Setting → Fields Setting
  | .table entries => entries
  | _ => []

mutual

/-- A setting written over another one.  A table is written entry by entry, so an empty one changes
nothing. -/
def merge (old : Option Setting) : Setting → Setting
  | .table entries => mergeEntries (old.getD (.table [])) entries
  | setting => setting

def mergeEntries (old : Setting) : List (String × Setting) → Setting
  | [] => old
  | (key, setting) :: rest =>
      let name := lowerCase key
      let written := merge (Fields.find? old.entries name) setting
      mergeEntries (.table (Fields.insert old.entries name written)) rest

end

/-- Write a setting at the end of a path that starts at an old setting, if there is one.  What
stands on the way becomes a table or a list.  The items of a list are not kept, since no option is
read from a list. -/
def write (setting : Setting) : List KeyStep → Option Setting → Setting
  | [], old => merge old setting
  | .name name :: path, old =>
      let found : Fields Setting := old.elim [] entries
      .table (found.insert name (write setting path (found.find? name)))
  | .place _ :: _, _ => .list []

end Setting

abbrev Layer : Type :=
  List (List KeyStep × Setting)

namespace Layer

def writeTo (layer : Layer) (root : Setting) : Setting :=
  layer.foldl (fun root (path, setting) => setting.write path (some root)) root

/-- The layer that the settings of a table make, whose keys are paths. -/
def ofSettings (settings : Fields Setting) : Layer :=
  settings.map fun (key, setting) => (KeyStep.pathOf (Setting.lowerCase key), setting)

/-- The start of the names of variables that set options, in lower case. -/
def variableLead : List Char :=
  "verdict__".toList

/-- The setting that the text of a variable stands for: a truth value or a number when it looks like
one. -/
def settingOfText (text : String) : Setting :=
  let word := Setting.lowerCase text
  if word = "true" then .boolean true
  else if word = "false" then .boolean false
  else
    match (Text.integer? text.toList).filter Text.isInteger64 with
    | some n => .integer n
    | none =>
        match Double.read? text.toList with
        | some x => .real x
        | none => .text text

/-- A name with a point in place of each two underscores. -/
def pointed : List Char → List Char
  | '_' :: '_' :: rest => '.' :: pointed rest
  | c :: rest => c :: pointed rest
  | [] => []

/-- What a variable sets; two underscores in its name separate the names of a path. -/
def ofVariable? (name text : String) : Option (List KeyStep × Setting) :=
  let name := (Setting.lowerCase name).toList
  if variableLead.isPrefixOf name then
    let key := String.ofList (pointed (name.drop variableLead.length))
    some (KeyStep.pathOf key, settingOfText text)
  else none

def ofEnvironment (environment : Fields String) : Layer :=
  environment.filterMap fun (name, text) => ofVariable? name text

end Layer

structure Overrides where
  yieldSupported : Option Bool := none
  disableInline : Option Bool := none
  poolMax : Option Nat := none
  maxDepth : Option Nat := none

namespace Overrides

def toLayer (overrides : Overrides) : Layer :=
  let setting? (name : String) (setting : Option Setting) : Layer :=
    setting.toList.map fun setting => ([.name name], setting)
  setting? "yield_supported" (overrides.yieldSupported.map .boolean) ++
    setting? "disable_inline" (overrides.disableInline.map .boolean) ++
    setting? "pool_max" (overrides.poolMax.map fun n => .integer n) ++
    setting? "max_depth" (overrides.maxDepth.map fun n => .integer n)

end Overrides

namespace Options

def defaultLayer : Layer :=
  let options : Options := {}
  Overrides.toLayer
    ⟨options.yieldSupported, options.disableInline, options.poolMax, options.maxDepth⟩

def read {α : Type} (table : Fields Setting) (ofSetting? : Setting → Option α) (name : String) :
    Except Failure α :=
  match (table.find? name).bind ofSetting? with
  | some value => .ok value
  | none => .error (.options .unreadable)

/-- The options in a table of settings.  A greatest depth of zero is refused. -/
def ofTable (table : Fields Setting) : Except Failure Options := do
  let yieldSupported ← read table Setting.toBool? "yield_supported"
  let disableInline ← read table Setting.toBool? "disable_inline"
  let poolMax ← read table Setting.toCount? "pool_max"
  let maxDepth ← read table Setting.toCount? "max_depth"
  if maxDepth = 0 then .error (.options (.refused "max_depth must be at least 1"))
  else .ok { yieldSupported, disableInline, poolMax, maxDepth }

def ofLayers (layers : List Layer) : Except Failure Options :=
  ofTable (layers.foldl (fun root (layer : Layer) => layer.writeTo root) (Setting.table [])).entries

def lines (options : Options) : List String := [
  "yield_supported = " ++ toString options.yieldSupported,
  "disable_inline = " ++ toString options.disableInline,
  "pool_max = " ++ toString options.poolMax,
  "max_depth = " ++ toString options.maxDepth]

end Options
end DecisionLogic
