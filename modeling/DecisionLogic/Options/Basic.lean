/-!
# Engine options

The options that are fixed when an engine is made.
-/

namespace DecisionLogic

structure Options where
  /-- Track suspensions; without it an operator that yields fails the evaluation. -/
  yieldSupported : Bool := false
  /-- Leave constant deterministic calls in the tree when building. -/
  disableInline : Bool := false
  /-- How many instances of a pooled program may be out at once, unless the build says otherwise. -/
  poolMax : Nat := 100
  maxDepth : Nat := 256
deriving DecidableEq, Repr

def Options.describe (options : Options) : String :=
  "EngineOptions \x7b yield_supported: " ++ toString options.yieldSupported ++
    ", disable_inline: " ++ toString options.disableInline ++
    ", pool_max: " ++ toString options.poolMax ++
    ", max_depth: " ++ toString options.maxDepth ++ " \x7d"

end DecisionLogic
