import DecisionLogic.Program.Basic

/-!
# What compiling does

`Compiled.Translates` lists the ways in which a node is compiled, without the order of the steps and
what is noted in between.  Whatever compiles is translated, so later proofs follow the cases of the
relation and never open the compiler.
-/

namespace DecisionLogic

/-! ## Steps of compiling -/

namespace Building

variable {α β : Type} {findings after : Findings} {y : β}

theorem bind_ok {step : Building α} {next : α → Building β}
    (hrun : (step >>= next).run.run findings = (.ok y, after)) :
    ∃ x between, step.run.run findings = (.ok x, between) ∧
      (next x).run.run between = (.ok y, after) := by
  rw [ExceptT.run_bind, StateT.run_bind] at hrun
  rcases hstep : step.run.run findings with ⟨result, between⟩
  rw [hstep] at hrun
  cases result with
  | ok x => exact ⟨x, between, rfl, hrun⟩
  | error failure => cases hrun

theorem guard_ok {condition : Prop} [Decidable condition] {failure : Failure}
    {next : Unit → Building β}
    (hrun : (if condition then throw failure >>= next else next ()).run.run findings =
      (.ok y, after)) :
    (next ()).run.run findings = (.ok y, after) := by
  split at hrun
  · cases hrun
  · exact hrun

theorem result_of_complete {engine : Engine} {name : String} {operator : Operator} {input : Json}
    {value : Json}
    (hrun : (complete engine name operator input).run.run findings = (.ok (some value), after)) :
    ∃ world final, world.cancelled = false ∧
      callOperator name operator (.evaluated input) (.ofData .null)
        (engine.handle (engine.evaluate engine.levels)) world = .finished final (.ok (.done value)) := by
  obtain ⟨findings', between, hget, hrun⟩ := bind_ok hrun
  obtain rfl : findings = findings' := by cases hget; rfl
  refine ⟨{ findings.world with bag := [], cancelled := false }, ?_⟩
  dsimp only at hrun
  split at hrun
  next value' hresult =>
    obtain ⟨_, between', _, hrun⟩ := bind_ok hrun
    obtain rfl : value' = value := by cases hrun; rfl
    cases hcall : callOperator name operator (.evaluated input) (.ofData .null)
        (engine.handle (engine.evaluate engine.levels))
        { findings.world with bag := [], cancelled := false } with
    | finished final result =>
        rw [hcall] at hresult
        obtain rfl := Option.some.inj hresult
        exact ⟨final, rfl, rfl⟩
    | waiting final ready rest =>
        rw [hcall] at hresult
        cases hresult
  next =>
    obtain ⟨_, between', _, hrun⟩ := bind_ok hrun
    cases hrun

end Building

/-! ## Translation -/

namespace Compiled

variable {engine : Engine}

mutual

inductive Translates (engine : Engine) : Logic → Compiled → Prop
  | literal (value : Json) : Translates engine (.literal value) (.literal value)
  | sequence {items : List Logic} {compiled : List Compiled}
      (hitems : TranslatesItems engine items compiled) :
      Translates engine (.sequence items) (.sequence compiled)
  | folded {items : List Logic} {compiled : List Compiled} {values : List Json}
      (hitems : TranslatesItems engine items compiled)
      (hvalues : literals? compiled = some values) :
      Translates engine (.sequence items) (.literal (.array values))
  | call {name : String} {operator : Operator} {args : Logic} {compiled : Compiled}
      (hlookup : engine.registry.lookup name = some operator) (htraverse : operator.traverse = true)
      (hargs : Translates engine args compiled) :
      Translates engine (.operation name args) (.call name operator compiled args)
  /-- The call was completed with the value of its arguments, in some world. -/
  | inlined {name : String} {operator : Operator} {args : Logic} {input value : Json}
      {world final : World}
      (hlookup : engine.registry.lookup name = some operator) (htraverse : operator.traverse = true)
      (hargs : Translates engine args (.literal input)) (hinlinable : operator.isInlinable = true)
      (hactive : world.cancelled = false)
      (hcall : callOperator name operator (.evaluated input) (.ofData .null)
        (engine.handle (engine.evaluate engine.levels)) world =
          .finished final (.ok (.done value))) :
      Translates engine (.operation name args) (.literal value)
  | rawCall {name : String} {operator : Operator} {args : Logic}
      (hlookup : engine.registry.lookup name = some operator)
      (htraverse : operator.traverse = false) :
      Translates engine (.operation name args) (.rawCall name operator args)

inductive TranslatesItems (engine : Engine) : List Logic → List Compiled → Prop
  | nil : TranslatesItems engine [] []
  | cons {item : Logic} {items : List Logic} {compiled : Compiled} {rest : List Compiled}
      (hitem : Translates engine item compiled) (hitems : TranslatesItems engine items rest) :
      TranslatesItems engine (item :: items) (compiled :: rest)

end

open Building (bind_ok guard_ok)

mutual

theorem translates_ofLogic : ∀ {node : Logic} {depth : Nat} {compiled : Compiled}
    {findings after : Findings},
    (ofLogic engine depth node).run.run findings = (.ok compiled, after) →
      Translates engine node compiled
  | .literal value, depth, compiled, findings, after, hrun => by
      unfold ofLogic at hrun
      cases guard_ok hrun
      exact .literal value
  | .sequence items, depth, compiled, findings, after, hrun => by
      unfold ofLogic at hrun
      obtain ⟨compiledItems, between, hcompiled, hrun⟩ := bind_ok (guard_ok hrun)
      have hitems := translatesItems_ofItems hcompiled
      split at hrun
      next values hvalues =>
        cases hrun
        exact .folded hitems hvalues
      next =>
        cases hrun
        exact .sequence hitems
  | .operation name args, depth, compiled, findings, after, hrun => by
      unfold ofLogic at hrun
      have hrun := guard_ok hrun
      split at hrun
      next => cases hrun
      next operator hlookup =>
        obtain ⟨_, observed, _, hrun⟩ := bind_ok hrun
        split at hrun
        next htraverse =>
          obtain ⟨compiledArgs, between, hcompiled, hrun⟩ := bind_ok hrun
          have hargs := translates_ofLogic hcompiled
          split at hrun
          next input =>
            split at hrun
            next hinline =>
              obtain ⟨value?, between', hcomplete, hrun⟩ := bind_ok hrun
              rw [Bool.and_eq_true] at hinline
              cases value? with
              | some value =>
                  cases hrun
                  obtain ⟨world, final, hactive, hcall⟩ := Building.result_of_complete hcomplete
                  exact .inlined hlookup htraverse hargs hinline.2 hactive hcall
              | none =>
                  cases hrun
                  exact .call hlookup htraverse hargs
            next =>
              cases hrun
              exact .call hlookup htraverse hargs
          next =>
            cases hrun
            exact .call hlookup htraverse hargs
        next htraverse =>
          obtain ⟨_, between, _, hrun⟩ := bind_ok hrun
          cases hrun
          exact .rawCall hlookup (Bool.not_eq_true _ ▸ htraverse)

theorem translatesItems_ofItems : ∀ {items : List Logic} {depth : Nat} {compiled : List Compiled}
    {findings after : Findings},
    (ofItems engine depth items).run.run findings = (.ok compiled, after) →
      TranslatesItems engine items compiled
  | [], depth, compiled, findings, after, hrun => by
      unfold ofItems at hrun
      cases hrun
      exact .nil
  | item :: items, depth, compiled, findings, after, hrun => by
      unfold ofItems at hrun
      obtain ⟨first, between, hfirst, hrun⟩ := bind_ok hrun
      obtain ⟨rest, between', hrest, hrun⟩ := bind_ok hrun
      cases hrun
      exact .cons (translates_ofLogic hfirst) (translatesItems_ofItems hrest)

end

end Compiled

namespace Program

variable {engine : Engine} {logic : Json} {above : List Json} {world : World} {program : Program}

/-- What a build that succeeds has done. -/
theorem ofLogic_of_build (hbuild : (build engine logic above world).1 = .ok program) :
    ∃ node root findings, Logic.parseBounded engine.options.maxDepth logic = .ok node ∧
      (Compiled.ofLogic engine 0 node).run.run ⟨.none, 0, world⟩ = (.ok root, findings) ∧
      program =
        { root
          kind := .ofNeeds findings.needs
          stateful := findings.needs.state
          fingerprint := Logic.fingerprint logic
          engine
          above } := by
  unfold build at hbuild
  split at hbuild
  next => cases hbuild
  next node hparse =>
    split at hbuild
    next => cases hbuild
    next root findings hrun =>
      cases hbuild
      exact ⟨node, root, findings, hparse, hrun, rfl⟩

/-- A built program belongs to its engine and stands for the tree that was parsed. -/
theorem translates_of_build (hbuild : (build engine logic above world).1 = .ok program) :
    program.engine = engine ∧ program.above = above ∧
      ∃ node, Logic.parseBounded engine.options.maxDepth logic = .ok node ∧
        Compiled.Translates engine node program.root := by
  obtain ⟨node, root, findings, hparse, hrun, rfl⟩ := ofLogic_of_build hbuild
  exact ⟨rfl, rfl, node, hparse, Compiled.translates_ofLogic hrun⟩

end Program
end DecisionLogic
