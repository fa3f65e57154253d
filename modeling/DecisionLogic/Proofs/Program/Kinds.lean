import DecisionLogic.Proofs.Program.Compilation
import DecisionLogic.Proofs.Program.Height

/-!
# The kind of a program

Where no operator is async, every tree that was parsed is sync, whether it is compiled or only
classified.
-/

namespace DecisionLogic

def Registry.Synchronous (registry : Registry) : Prop :=
  ∀ name operator, registry.lookup name = some operator → operator.isAsync = false

variable {engine : Engine}

namespace Needs

theorem async_add {needs : Needs} {operator : Operator} (hneeds : needs.async = false)
    (hoperator : operator.isAsync = false) : (needs.add operator).async = false := by
  simp [add, hneeds, hoperator]

mutual

theorem async_of_scan (hsync : engine.registry.Synchronous) : ∀ {node : Logic} {needs after : Needs}
    {strict : Bool} {depth : Nat}, scan engine needs strict depth node = .ok after →
      needs.async = false → after.async = false
  | .literal _, needs, after, strict, depth, hscan, hneeds => by
      unfold scan at hscan
      split at hscan
      · cases hscan
      · cases hscan
        exact hneeds
  | .sequence items, needs, after, strict, depth, hscan, hneeds => by
      unfold scan at hscan
      split at hscan
      · cases hscan
      · exact async_of_scanItems hsync hscan hneeds
  | .operation name args, needs, after, strict, depth, hscan, hneeds => by
      unfold scan at hscan
      split at hscan
      · cases hscan
      · split at hscan
        next operator hlookup =>
          have hoperator := hsync name operator hlookup
          exact async_of_scan hsync hscan (async_add hneeds hoperator)
        next =>
          split at hscan
          · cases hscan
          · exact async_of_scan hsync hscan hneeds

theorem async_of_scanItems (hsync : engine.registry.Synchronous) :
    ∀ {items : List Logic} {needs after : Needs} {strict : Bool} {depth : Nat},
      scanItems engine needs strict depth items = .ok after → needs.async = false →
        after.async = false
  | [], needs, after, strict, depth, hscan, hneeds => by
      cases hscan
      exact hneeds
  | item :: items, needs, after, strict, depth, hscan, hneeds => by
      unfold scanItems at hscan
      split at hscan
      next => cases hscan
      next between hitem =>
        exact async_of_scanItems hsync hscan (async_of_scan hsync hitem hneeds)

end

mutual

/-- A scan that is not strict ends well if the depth limit allows it. -/
theorem exists_scan : ∀ (node : Logic) (needs : Needs) (depth : Nat),
    depth + node.height ≤ engine.options.maxDepth + 1 →
      ∃ after, scan engine needs false depth node = .ok after
  | .literal value, needs, depth, hheight => by
      rw [Logic.height] at hheight
      have hdepth : ¬ engine.options.maxDepth < depth := by omega
      exact ⟨needs, by simp [scan, hdepth]⟩
  | .sequence items, needs, depth, hheight => by
      rw [Logic.height] at hheight
      have hdepth : ¬ engine.options.maxDepth < depth := by omega
      obtain ⟨after, hscan⟩ := exists_scanItems items needs (depth + 1) (by omega)
      exact ⟨after, by simp [scan, hdepth, hscan]⟩
  | .operation name args, needs, depth, hheight => by
      rw [Logic.height] at hheight
      have hdepth : ¬ engine.options.maxDepth < depth := by omega
      have hargs : depth + 1 + args.height ≤ engine.options.maxDepth + 1 := by omega
      cases hlookup : engine.registry.lookup name with
      | none =>
          obtain ⟨after, hscan⟩ := exists_scan args needs (depth + 1) hargs
          exact ⟨after, by simp [scan, hdepth, hlookup, hscan]⟩
      | some operator =>
          obtain ⟨after, hscan⟩ := exists_scan args (needs.add operator) (depth + 1) hargs
          exact ⟨after, by simp [scan, hdepth, hlookup, hscan]⟩

theorem exists_scanItems : ∀ (items : List Logic) (needs : Needs) (depth : Nat),
    depth + Logic.itemsHeight items ≤ engine.options.maxDepth + 1 →
      ∃ after, scanItems engine needs false depth items = .ok after
  | [], needs, depth, _ => ⟨needs, by simp [scanItems]⟩
  | item :: items, needs, depth, hheight => by
      rw [Logic.itemsHeight] at hheight
      obtain ⟨between, hitem⟩ := exists_scan item needs depth (by omega)
      obtain ⟨after, hitems⟩ := exists_scanItems items between depth (by omega)
      exact ⟨after, by simp [scanItems, hitem, hitems]⟩

end

end Needs

theorem Engine.classify_eq_sync (hsync : engine.registry.Synchronous) {node : Logic}
    (hheight : node.height ≤ engine.levels) : engine.classify node = .ok .sync := by
  have hlevels : 0 + node.height ≤ engine.options.maxDepth + 1 := by
    rw [Nat.zero_add]
    exact hheight
  obtain ⟨after, hscan⟩ := Needs.exists_scan node .none 0 hlevels
  have hasync := Needs.async_of_scan hsync hscan rfl
  simp [classify, hscan, Except.map, ProgramKind.ofNeeds, hasync]

namespace Building

variable {findings after : Findings}

theorem needs_of_scan {strict : Bool} {depth : Nat} {node : Logic}
    (hrun : (scan engine strict depth node).run.run findings = (.ok (), after)) :
    Needs.scan engine findings.needs strict depth node = .ok after.needs := by
  obtain ⟨_, between, hget, hrun⟩ := bind_ok hrun
  cases hget
  obtain ⟨needs, between', hscan, hrun⟩ := bind_ok hrun
  cases hrun
  cases hneeds : Needs.scan engine findings.needs strict depth node with
  | error failure =>
      rw [hneeds] at hscan
      cases hscan
  | ok found =>
      rw [hneeds] at hscan
      cases hscan
      rfl

theorem needs_of_complete {name : String} {operator : Operator} {input : Json}
    {value? : Option Json}
    (hrun : (complete engine name operator input).run.run findings = (.ok value?, after)) :
    after.needs = findings.needs := by
  obtain ⟨_, between, hget, hrun⟩ := bind_ok hrun
  cases hget
  dsimp only at hrun
  split at hrun
  next =>
    obtain ⟨_, between', hset, hrun⟩ := bind_ok hrun
    cases hset
    cases hrun
    rfl
  next =>
    obtain ⟨_, between', hset, hrun⟩ := bind_ok hrun
    cases hset
    cases hrun
    rfl

end Building

namespace Compiled

open Building (bind_ok guard_ok)

mutual

theorem async_of_ofLogic (hsync : engine.registry.Synchronous) : ∀ {node : Logic} {depth : Nat}
    {compiled : Compiled} {findings after : Findings},
    (ofLogic engine depth node).run.run findings = (.ok compiled, after) →
      findings.needs.async = false → after.needs.async = false
  | .literal value, depth, compiled, findings, after, hrun, hneeds => by
      unfold ofLogic at hrun
      cases guard_ok hrun
      exact hneeds
  | .sequence items, depth, compiled, findings, after, hrun, hneeds => by
      unfold ofLogic at hrun
      obtain ⟨compiledItems, between, hcompiled, hrun⟩ := bind_ok (guard_ok hrun)
      have hitems := async_of_ofItems hsync hcompiled hneeds
      split at hrun
      · cases hrun
        exact hitems
      · cases hrun
        exact hitems
  | .operation name args, depth, compiled, findings, after, hrun, hneeds => by
      unfold ofLogic at hrun
      have hrun := guard_ok hrun
      split at hrun
      next => cases hrun
      next operator hlookup =>
        obtain ⟨_, observed, hobserve, hrun⟩ := bind_ok hrun
        cases hobserve
        have hobserved := Needs.async_add hneeds (hsync name operator hlookup)
        split at hrun
        next htraverse =>
          obtain ⟨compiledArgs, between, hcompiled, hrun⟩ := bind_ok hrun
          have hargs := async_of_ofLogic hsync hcompiled hobserved
          split at hrun
          next input =>
            split at hrun
            next hinline =>
              obtain ⟨value?, between', hcomplete, hrun⟩ := bind_ok hrun
              have hkept := Building.needs_of_complete hcomplete
              rw [← hkept] at hargs
              cases value? with
              | some value =>
                  cases hrun
                  exact hargs
              | none =>
                  cases hrun
                  exact hargs
            next =>
              cases hrun
              exact hargs
          next =>
            cases hrun
            exact hargs
        next htraverse =>
          obtain ⟨_, between, hscan, hrun⟩ := bind_ok hrun
          cases hrun
          exact Needs.async_of_scan hsync (Building.needs_of_scan hscan) hobserved

theorem async_of_ofItems (hsync : engine.registry.Synchronous) : ∀ {items : List Logic}
    {depth : Nat} {compiled : List Compiled} {findings after : Findings},
    (ofItems engine depth items).run.run findings = (.ok compiled, after) →
      findings.needs.async = false → after.needs.async = false
  | [], depth, compiled, findings, after, hrun, hneeds => by
      unfold ofItems at hrun
      cases hrun
      exact hneeds
  | item :: items, depth, compiled, findings, after, hrun, hneeds => by
      unfold ofItems at hrun
      obtain ⟨first, between, hfirst, hrun⟩ := bind_ok hrun
      obtain ⟨rest, between', hrest, hrun⟩ := bind_ok hrun
      cases hrun
      exact async_of_ofItems hsync hrest (async_of_ofLogic hsync hfirst hneeds)

end

end Compiled

theorem Program.kind_of_build (hsync : engine.registry.Synchronous) {logic : Json}
    {above : List Json} {world : World} {program : Program}
    (hbuild : (Program.build engine logic above world).1 = .ok program) : program.kind = .sync := by
  obtain ⟨node, root, findings, -, hrun, rfl⟩ := ofLogic_of_build hbuild
  have hasync := Compiled.async_of_ofLogic hsync hrun rfl
  simp [ProgramKind.ofNeeds, hasync]

end DecisionLogic
