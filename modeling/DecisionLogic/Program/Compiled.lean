import DecisionLogic.Engine.Evaluate

/-!
# Compiled trees

A compiled tree is a logic tree whose operators are resolved.  Compiling fails for a name that is
not known, notes whether some operator is async or keeps state, and replaces a call whose operator
is deterministic and whose arguments are constant by its value.  A call that cannot be completed
while compiling stays in the tree.
-/

namespace DecisionLogic

inductive Compiled where
  | literal (value : Json)
  | sequence (items : List Compiled)
  /-- An operator whose arguments are evaluated first; `raw` is their tree. -/
  | call (name : String) (operator : Operator) (args : Compiled) (raw : Logic)
  /-- An operator that receives the tree of its arguments. -/
  | rawCall (name : String) (operator : Operator) (raw : Logic)

namespace Compiled

def literal? : Compiled → Option Json
  | .literal value => some value
  | _ => none

def literals? : List Compiled → Option (List Json)
  | [] => some []
  | item :: items =>
      match item.literal?, literals? items with
      | some value, some values => some (value :: values)
      | _, _ => none

mutual

/-- Evaluate a compiled tree.  Nodes handed over as trees are evaluated from the first level on. -/
def execute (engine : Engine) (scope : Scope) : Compiled → Computation Evaluation
  | .literal value => do
      Computation.checkCancelled
      return .done value
  | .sequence items => do
      Computation.checkCancelled
      return .join (← Computation.joinAll (executeItems engine scope items))
  | .call name operator args raw => do
      Computation.checkCancelled
      match ← execute engine scope args with
      | .done value =>
          callOperator name operator (.evaluated value) scope
            (engine.handle (engine.evaluate engine.levels))
      | .suspended suspension => return .suspended (suspension.withinCall name raw.toJson)
  | .rawCall name operator raw => do
      Computation.checkCancelled
      callOperator name operator (.raw raw) scope (engine.handle (engine.evaluate engine.levels))

def executeItems (engine : Engine) (scope : Scope) : List Compiled → List (Computation Evaluation)
  | [] => []
  | item :: items => execute engine scope item :: executeItems engine scope items

end

end Compiled

/-! ## Classification -/

structure Needs where
  async : Bool
  /-- Some operator keeps state for the invocation. -/
  state : Bool
deriving DecidableEq

namespace Needs

def none : Needs :=
  ⟨false, false⟩

def add (needs : Needs) (operator : Operator) : Needs :=
  ⟨needs.async || operator.isAsync, needs.state || operator.useContext⟩

mutual

/-- The needs of a raw argument tree on level `depth`.  In a strict tree, which is evaluated, every
name has to be known; below an operator whose raw arguments are data unknown names do no harm. -/
def scan (engine : Engine) (needs : Needs) (strict : Bool) (depth : Nat) :
    Logic → Except Failure Needs
  | .literal _ =>
      if engine.options.maxDepth < depth then .error (.nestingTooDeep engine.options.maxDepth)
      else .ok needs
  | .sequence items =>
      if engine.options.maxDepth < depth then .error (.nestingTooDeep engine.options.maxDepth)
      else scanItems engine needs strict (depth + 1) items
  | .operation name args =>
      if engine.options.maxDepth < depth then .error (.nestingTooDeep engine.options.maxDepth)
      else
        match engine.registry.lookup name with
        | some operator =>
            scan engine (needs.add operator) (strict && !operator.rawData) (depth + 1) args
        | .none =>
            if strict then .error (.unknownOperator name)
            else scan engine needs false (depth + 1) args

def scanItems (engine : Engine) (needs : Needs) (strict : Bool) (depth : Nat) :
    List Logic → Except Failure Needs
  | [] => .ok needs
  | item :: items =>
      match scan engine needs strict depth item with
      | .error failure => .error failure
      | .ok needs => scanItems engine needs strict depth items

end

end Needs

/-! ## Compiling -/

/-- What compiling has found so far, and the world in which calls are completed. -/
structure Findings where
  needs : Needs
  /-- The number of calls replaced by their values. -/
  inlined : Nat
  world : World

abbrev Building (α : Type) : Type :=
  ExceptT Failure (StateM Findings) α

def Operator.isInlinable (operator : Operator) : Bool :=
  operator.deterministic && operator.sync && !operator.yields && !operator.useContext

namespace Building

def observe (operator : Operator) : Building Unit :=
  modify fun findings => { findings with needs := findings.needs.add operator }

def scan (engine : Engine) (strict : Bool) (depth : Nat) (node : Logic) : Building Unit := do
  let findings ← get
  let needs ← liftM (findings.needs.scan engine strict depth node)
  set { findings with needs }

/-- The value of a call at its first poll, in a fresh invocation and an empty scope. -/
def complete (engine : Engine) (name : String) (operator : Operator) (input : Json) :
    Building (Option Json) := do
  let findings ← get
  let call := callOperator name operator (.evaluated input) (.ofData .null)
    (engine.handle (engine.evaluate engine.levels))
  let after := call { findings.world with bag := [], cancelled := false }
  match after.result? with
  | some (.ok (.done value)) =>
      set { findings with inlined := findings.inlined + 1, world := after.world }
      return some value
  | _ =>
      set { findings with world := after.world }
      return none

end Building

namespace Compiled

mutual

def ofLogic (engine : Engine) (depth : Nat) : Logic → Building Compiled
  | .literal value => do
      if engine.options.maxDepth < depth then
        throw (.nestingTooDeep engine.options.maxDepth)
      return .literal value
  | .sequence items => do
      if engine.options.maxDepth < depth then
        throw (.nestingTooDeep engine.options.maxDepth)
      let compiled ← ofItems engine (depth + 1) items
      match literals? compiled with
      | some values => return .literal (.array values)
      | none => return .sequence compiled
  | .operation name args => do
      if engine.options.maxDepth < depth then
        throw (.nestingTooDeep engine.options.maxDepth)
      match engine.registry.lookup name with
      | none => throw (.unknownOperator name)
      | some operator =>
          Building.observe operator
          if operator.traverse then
            let compiled ← ofLogic engine (depth + 1) args
            match compiled with
            | .literal input =>
                if !engine.options.disableInline && operator.isInlinable then
                  match ← Building.complete engine name operator input with
                  | some value => return .literal value
                  | none => return .call name operator compiled args
                else return .call name operator compiled args
            | _ => return .call name operator compiled args
          else
            Building.scan engine (!operator.rawData) (depth + 1) args
            return .rawCall name operator args

def ofItems (engine : Engine) (depth : Nat) : List Logic → Building (List Compiled)
  | [] => return []
  | item :: items => do
      let compiled ← ofLogic engine depth item
      let rest ← ofItems engine depth items
      return compiled :: rest

end

end Compiled
end DecisionLogic
