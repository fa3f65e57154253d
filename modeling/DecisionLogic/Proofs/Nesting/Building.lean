import DecisionLogic.Proofs.Nesting.Evaluation
import DecisionLogic.Proofs.Program.Height
import DecisionLogic.Proofs.Standard.Bodies

/-!
# Builds that have enough levels

The classification of logic and its compilation count levels as parsing does.  So neither finds a
tree nested too deep that is not higher than the levels from where it stands.
-/

namespace DecisionLogic

variable {engine : Engine}

/-- A node that is not too high is not too deep itself, and what is below it is not too high. -/
theorem guard_passes {limit depth height : Nat} (hheight : depth + (height + 1) ≤ limit + 1) :
    ¬ limit < depth ∧ depth + 1 + height ≤ limit + 1 := by
  omega

namespace Needs

mutual

theorem scan_shallow : ∀ {node : Logic} {depth : Nat} (needs : Needs) (strict : Bool),
    depth + node.height ≤ engine.options.maxDepth + 1 →
      OnlyFails Law.shallow.Fails (scan engine needs strict depth node)
  | .literal value, depth, needs, strict, hheight => by
      unfold scan
      rw [if_neg (guard_passes hheight).1]
      exact .ok needs
  | .sequence items, depth, needs, strict, hheight => by
      obtain ⟨hdepth, hbelow⟩ := guard_passes hheight
      unfold scan
      rw [if_neg hdepth]
      exact scanItems_shallow needs strict hbelow
  | .operation name args, depth, needs, strict, hheight => by
      obtain ⟨hdepth, hbelow⟩ := guard_passes hheight
      unfold scan
      rw [if_neg hdepth]
      split
      next operator hlookup => exact scan_shallow _ _ hbelow
      next =>
        split
        · exact .error fun _ => nofun
        · exact scan_shallow _ _ hbelow

theorem scanItems_shallow : ∀ {items : List Logic} {depth : Nat} (needs : Needs) (strict : Bool),
    depth + Logic.itemsHeight items ≤ engine.options.maxDepth + 1 →
      OnlyFails Law.shallow.Fails (scanItems engine needs strict depth items)
  | [], depth, needs, strict, _ => .ok needs
  | item :: items, depth, needs, strict, hheight => by
      rw [Logic.itemsHeight] at hheight
      unfold scanItems
      split
      next failure hitem => exact .error (scan_shallow needs strict (by omega) failure hitem)
      next needs _ => exact scanItems_shallow needs strict (by omega)

end

end Needs

/-! ## Compiling -/

namespace Building

variable {α β : Type}

/-- The step does not fail because something is nested too deep. -/
def Shallow (step : Building α) : Prop :=
  ∀ findings : Findings, OnlyFails Law.shallow.Fails (step.run.run findings).1

theorem shallow_pure (x : α) : Shallow (pure x) :=
  fun _ => .ok x

theorem Shallow.bind {step : Building α} {next : α → Building β} (hstep : step.Shallow)
    (hnext : ∀ x, (next x).Shallow) : (step >>= next).Shallow := by
  intro findings
  have hfirst := hstep findings
  rw [ExceptT.run_bind, StateT.run_bind]
  rcases hrun : step.run.run findings with ⟨result, between⟩
  rw [hrun] at hfirst
  cases result with
  | ok x => exact hnext x between
  | error failure => exact .error (hfirst failure rfl)

theorem shallow_get : Shallow (get : Building Findings) :=
  fun findings => .ok findings

theorem shallow_set (findings : Findings) : Shallow (set findings : Building Unit) :=
  fun _ => .ok ()

theorem shallow_lift {result : Except Failure α} (hresult : OnlyFails Law.shallow.Fails result) :
    Shallow (liftM result) := by
  intro findings
  cases result with
  | ok x => exact .ok x
  | error failure => exact .error (hresult failure rfl)

theorem shallow_scan {depth : Nat} {node : Logic} (strict : Bool)
    (hheight : depth + node.height ≤ engine.options.maxDepth + 1) :
    (scan engine strict depth node).Shallow := by
  refine shallow_get.bind fun findings => ?_
  refine (shallow_lift (Needs.scan_shallow findings.needs strict hheight)).bind fun needs => ?_
  exact shallow_set _

/-- A call that fails while it is completed stays in the tree. -/
theorem shallow_complete (name : String) (operator : Operator) (input : Json) :
    (complete engine name operator input).Shallow := by
  refine shallow_get.bind fun findings => ?_
  dsimp only
  split
  · exact (shallow_set _).bind fun _ => shallow_pure _
  · exact (shallow_set _).bind fun _ => shallow_pure _

end Building

namespace Compiled

open Building

mutual

theorem ofLogic_shallow : ∀ {node : Logic} {depth : Nat},
    depth + node.height ≤ engine.options.maxDepth + 1 → (ofLogic engine depth node).Shallow
  | .literal value, depth, hheight => by
      unfold ofLogic
      rw [if_neg (guard_passes hheight).1]
      exact shallow_pure _
  | .sequence items, depth, hheight => by
      obtain ⟨hdepth, hbelow⟩ := guard_passes hheight
      unfold ofLogic
      rw [if_neg hdepth]
      refine .bind (ofItems_shallow hbelow) fun compiled => ?_
      split
      · exact shallow_pure _
      · exact shallow_pure _
  | .operation name args, depth, hheight => by
      obtain ⟨hdepth, hbelow⟩ := guard_passes hheight
      unfold ofLogic
      rw [if_neg hdepth]
      split
      next => exact fun _ => .error fun _ => nofun
      next operator hlookup =>
        refine .bind (fun _ => .ok ()) fun _ => ?_
        split
        next htraverse =>
          refine .bind (ofLogic_shallow hbelow) fun compiled => ?_
          split
          next input =>
            split
            · refine .bind (shallow_complete name operator input) fun value? => ?_
              split
              · exact shallow_pure _
              · exact shallow_pure _
            · exact shallow_pure _
          next => exact shallow_pure _
        next =>
          refine .bind (shallow_scan _ hbelow) fun _ => ?_
          exact shallow_pure _

theorem ofItems_shallow : ∀ {items : List Logic} {depth : Nat},
    depth + Logic.itemsHeight items ≤ engine.options.maxDepth + 1 →
      (ofItems engine depth items).Shallow
  | [], depth, _ => shallow_pure _
  | item :: items, depth, hheight => by
      rw [Logic.itemsHeight] at hheight
      unfold ofItems
      refine .bind (ofLogic_shallow (by omega)) fun _ => ?_
      exact .bind (ofItems_shallow (by omega)) fun _ => shallow_pure _

end

end Compiled
end DecisionLogic
