import DecisionLogic.Proofs.Alike.Operator
import DecisionLogic.Proofs.Program.Kinds
import DecisionLogic.Proofs.Resumption.Plain

/-!
# What the kind of a program says

The compiler and the scan of raw arguments walk a tree by different rules, but both see every
operation of it.  So a program is async exactly when some operation of its logic names an async
operator, and classifying the logic without compiling it comes to the same.
-/

namespace DecisionLogic

/-! ## Operations that name async operators -/

namespace Logic

variable {registry : Registry}

/-- Some operation of the tree, at any depth, names an async operator. -/
def NamesAsync (registry : Registry) (node : Logic) : Prop :=
  ∃ name args operator, (operation name args).Within node ∧
    registry.lookup name = some operator ∧ operator.isAsync = true

theorem not_namesAsync_literal (value : Json) : ¬ (literal value).NamesAsync registry := by
  rintro ⟨_, _, _, hwithin, _⟩
  cases hwithin

theorem namesAsync_sequence (items : List Logic) :
    (sequence items).NamesAsync registry ↔ ∃ item ∈ items, item.NamesAsync registry := by
  constructor
  · rintro ⟨name, args, operator, hwithin, hoperator⟩
    cases hwithin with
    | item hitem hwithin => exact ⟨_, hitem, name, args, operator, hwithin, hoperator⟩
  · rintro ⟨item, hitem, name, args, operator, hwithin, hoperator⟩
    exact ⟨name, args, operator, .item hitem hwithin, hoperator⟩

theorem namesAsync_operation (name : String) (args : Logic) :
    (operation name args).NamesAsync registry ↔
      (∃ operator, registry.lookup name = some operator ∧ operator.isAsync = true) ∨
        args.NamesAsync registry := by
  constructor
  · rintro ⟨inner, innerArgs, operator, hwithin, hoperator⟩
    cases hwithin with
    | self => exact .inl ⟨operator, hoperator⟩
    | args hwithin => exact .inr ⟨inner, innerArgs, operator, hwithin, hoperator⟩
  · rintro (⟨operator, hoperator⟩ | ⟨inner, innerArgs, operator, hwithin, hoperator⟩)
    · exact ⟨name, args, operator, .self _, hoperator⟩
    · exact ⟨inner, innerArgs, operator, .args hwithin, hoperator⟩

theorem namesAsync_known {name : String} {operator : Operator}
    (hlookup : registry.lookup name = some operator) (args : Logic) :
    (operation name args).NamesAsync registry ↔
      operator.isAsync = true ∨ args.NamesAsync registry := by
  rw [namesAsync_operation, hlookup]
  simp

theorem namesAsync_unknown {name : String} (hlookup : registry.lookup name = none) (args : Logic) :
    (operation name args).NamesAsync registry ↔ args.NamesAsync registry := by
  rw [namesAsync_operation, hlookup]
  simp

end Logic

variable {engine : Engine}

/-! ## Scanning -/

namespace Needs

theorem async_add_iff (needs : Needs) (operator : Operator) :
    (needs.add operator).async = true ↔ needs.async = true ∨ operator.isAsync = true := by
  simp [add]

mutual

theorem async_scan_iff : ∀ {node : Logic} {needs after : Needs} {strict : Bool} {depth : Nat},
    scan engine needs strict depth node = .ok after →
      (after.async = true ↔ needs.async = true ∨ node.NamesAsync engine.registry)
  | .literal value, needs, after, strict, depth, hscan => by
      unfold scan at hscan
      split at hscan
      · cases hscan
      · cases hscan
        simp [Logic.not_namesAsync_literal]
  | .sequence items, needs, after, strict, depth, hscan => by
      unfold scan at hscan
      split at hscan
      · cases hscan
      · rw [Logic.namesAsync_sequence]
        exact async_scanItems_iff hscan
  | .operation name args, needs, after, strict, depth, hscan => by
      unfold scan at hscan
      split at hscan
      · cases hscan
      · split at hscan
        next operator hlookup =>
          rw [async_scan_iff hscan, async_add_iff, Logic.namesAsync_known hlookup, or_assoc]
        next hlookup =>
          rw [Logic.namesAsync_unknown hlookup]
          split at hscan
          · cases hscan
          · exact async_scan_iff hscan

theorem async_scanItems_iff : ∀ {items : List Logic} {needs after : Needs} {strict : Bool}
    {depth : Nat}, scanItems engine needs strict depth items = .ok after →
      (after.async = true ↔
        needs.async = true ∨ ∃ item ∈ items, item.NamesAsync engine.registry)
  | [], needs, after, strict, depth, hscan => by
      cases hscan
      simp
  | item :: items, needs, after, strict, depth, hscan => by
      unfold scanItems at hscan
      split at hscan
      next => cases hscan
      next between hitem =>
        rw [async_scanItems_iff hscan, async_scan_iff hitem]
        simp only [List.mem_cons, exists_eq_or_imp, or_assoc]

end

end Needs

/-! ## Compiling -/

namespace Compiled

open Building (bind_ok guard_ok)

mutual

theorem async_ofLogic_iff : ∀ {node : Logic} {depth : Nat} {compiled : Compiled}
    {findings after : Findings},
    (ofLogic engine depth node).run.run findings = (.ok compiled, after) →
      (after.needs.async = true ↔
        findings.needs.async = true ∨ node.NamesAsync engine.registry)
  | .literal value, depth, compiled, findings, after, hrun => by
      unfold ofLogic at hrun
      cases guard_ok hrun
      simp [Logic.not_namesAsync_literal]
  | .sequence items, depth, compiled, findings, after, hrun => by
      unfold ofLogic at hrun
      obtain ⟨compiledItems, between, hcompiled, hrun⟩ := bind_ok (guard_ok hrun)
      rw [Logic.namesAsync_sequence, ← async_ofItems_iff hcompiled]
      split at hrun
      · cases hrun
        rfl
      · cases hrun
        rfl
  | .operation name args, depth, compiled, findings, after, hrun => by
      unfold ofLogic at hrun
      have hrun := guard_ok hrun
      split at hrun
      next => cases hrun
      next operator hlookup =>
        obtain ⟨_, observed, hobserve, hrun⟩ := bind_ok hrun
        cases hobserve
        rw [Logic.namesAsync_known hlookup, ← or_assoc, ← Needs.async_add_iff]
        split at hrun
        next htraverse =>
          obtain ⟨compiledArgs, between, hcompiled, hrun⟩ := bind_ok hrun
          have hargs := async_ofLogic_iff hcompiled
          -- What is noted for the arguments stays, whether or not the call is completed.
          suffices hkept : after.needs = between.needs by rw [hkept, hargs]
          split at hrun
          next input =>
            split at hrun
            next hinline =>
              obtain ⟨value?, between', hcomplete, hrun⟩ := bind_ok hrun
              rw [← Building.needs_of_complete hcomplete]
              cases value? with
              | some value =>
                  cases hrun
                  rfl
              | none =>
                  cases hrun
                  rfl
            next =>
              cases hrun
              rfl
          next =>
            cases hrun
            rfl
        next htraverse =>
          obtain ⟨_, between, hscan, hrun⟩ := bind_ok hrun
          cases hrun
          exact Needs.async_scan_iff (Building.needs_of_scan hscan)

theorem async_ofItems_iff : ∀ {items : List Logic} {depth : Nat} {compiled : List Compiled}
    {findings after : Findings},
    (ofItems engine depth items).run.run findings = (.ok compiled, after) →
      (after.needs.async = true ↔
        findings.needs.async = true ∨ ∃ item ∈ items, item.NamesAsync engine.registry)
  | [], depth, compiled, findings, after, hrun => by
      unfold ofItems at hrun
      cases hrun
      simp
  | item :: items, depth, compiled, findings, after, hrun => by
      unfold ofItems at hrun
      obtain ⟨first, between, hfirst, hrun⟩ := bind_ok hrun
      obtain ⟨rest, between', hrest, hrun⟩ := bind_ok hrun
      cases hrun
      rw [async_ofItems_iff hrest, async_ofLogic_iff hfirst]
      simp only [List.mem_cons, exists_eq_or_imp, or_assoc]

end

end Compiled

theorem ProgramKind.ofNeeds_eq_async_iff (needs : Needs) :
    ProgramKind.ofNeeds needs = .async ↔ needs.async = true := by
  unfold ofNeeds
  cases needs.async <;> simp

variable {logic : Json} {above : List Json} {world : World} {program : Program}

namespace Program

theorem kind_eq_async_iff (hbuild : (Program.build engine logic above world).1 = .ok program) :
    program.kind = .async ↔ (Logic.parse logic).NamesAsync engine.registry := by
  obtain ⟨node, root, findings, hparse, hrun, rfl⟩ := ofLogic_of_build hbuild
  obtain rfl := Logic.parse_of_parseAt hparse
  dsimp only
  rw [ProgramKind.ofNeeds_eq_async_iff, Compiled.async_ofLogic_iff hrun]
  simp [Needs.none]

/-- Classifying the logic of a program gives the kind of the program. -/
theorem classify_of_build (hbuild : (Program.build engine logic above world).1 = .ok program)
    {node : Logic} (hparse : Logic.parseBounded engine.options.maxDepth logic = .ok node) :
    engine.classify node = .ok program.kind := by
  have hheight := Logic.height_of_parseBounded hparse
  obtain ⟨after, hscan⟩ : ∃ after, Needs.scan engine .none false 0 node = .ok after :=
    Needs.exists_scan node .none 0 (by omega)
  have hkind : ProgramKind.ofNeeds after = .async ↔ program.kind = .async := by
    rw [ProgramKind.ofNeeds_eq_async_iff, Needs.async_scan_iff hscan, kind_eq_async_iff hbuild,
      Logic.parse_of_parseAt hparse]
    simp [Needs.none]
  have hsame : ProgramKind.ofNeeds after = program.kind := by
    generalize ProgramKind.ofNeeds after = kind at hkind ⊢
    generalize program.kind = kind' at hkind ⊢
    cases kind <;> cases kind' <;> simp_all
  simp only [Engine.classify, hscan, Except.map, hsame]

theorem runSync_of_build (hbuild : (Program.build engine logic above world).1 = .ok program)
    (data : Json) (above' : List Json) :
    engine.runSync logic data above' =
      match program.kind with
      | .async => throw .notSynchronous
      | .sync => (engine.run logic data above').now := by
  obtain ⟨-, -, node, hparse, -⟩ := translates_of_build hbuild
  rw [Engine.run_of_parse hparse]
  unfold Engine.runSync
  rw [hparse]
  change (liftM (engine.classify node) >>= fun kind => _ : Action Evaluation) = _
  rw [classify_of_build hbuild hparse]
  rfl

end Program
end DecisionLogic
