import DecisionLogic.Engine.Evaluate
import DecisionLogic.Standard.Arithmetic
import DecisionLogic.Standard.Comparison
import DecisionLogic.Standard.Data
import DecisionLogic.Standard.Iteration

/-!
# The standard registry

The standard operators are registered through the same shapes as any other operator.
-/

namespace DecisionLogic

namespace Standard

def entries : List Entry :=
  arithmeticEntries ++ comparisonEntries ++ choiceEntries ++ dataEntries ++ iterationEntries

def registry : Registry :=
  entries.foldl
    (fun registry entry =>
      (registry.register entry.name entry.shape entry.annotations .standard).2)
    .empty

end Standard

def Engine.standard (options : Options) : Engine :=
  ⟨Standard.registry, options⟩

end DecisionLogic
