import DecisionLogic.Operator.Basic

/-!
# Arguments and bodies

How the standard operators take their arguments, and bodies made of plain functions.
-/

namespace DecisionLogic.Standard

def argument (args : List Json) (index : Nat) : Json :=
  args.getD index .null

def ofArguments (f : List Json → Except Failure Json) : ImmediateBody :=
  fun input _ _ => ExceptT.mk fun world => ((f input.args).map .value, world)

def ofScope (f : List Json → Scope → Except Failure Json) : ImmediateBody :=
  fun input scope _ => ExceptT.mk fun world => ((f input.args scope).map .value, world)

structure Entry where
  name : String
  shape : Shape
  annotations : Annotations

def pureEntry (name : String) (f : List Json → Except Failure Json) : Entry :=
  ⟨name, { immediate := some (ofArguments f) }, { deterministic := true }⟩

/-- An operator that evaluates its own arguments and waits on nothing else. -/
def lazyEntry (name : String) (body : AwaitingBody) : Entry :=
  ⟨name, { awaiting := some body, traverse := false }, { sync := some true }⟩

end DecisionLogic.Standard
