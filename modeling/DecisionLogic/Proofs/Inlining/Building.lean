import DecisionLogic.Proofs.Inlining.Folding

/-!
# Compiling folds

When operators remember nothing and inlining is on, a node that compiles at all compiles to what it
folds to.  Meanwhile the calls of its completions are made, each once and in their order, and
nothing else touches the world.
-/

namespace DecisionLogic

variable {engine : Engine}

/-! ## Completed calls -/

namespace Completion

def attempt (engine : Engine) (c : Completion) (world : World) : Moment Evaluation :=
  engine.attempt c.name c.operator c.input world

/-- The world after the call. -/
def run (engine : Engine) (world : World) (c : Completion) : World :=
  (c.attempt engine world).world

/-- What the call gives at once, whatever has happened before. -/
def Gives (engine : Engine) (c : Completion) (value? : Option Json) : Prop :=
  ∀ world, (c.attempt engine world).done? = value?

theorem foldl_run_below (i : Nat) (cs : List Completion) (world : World) :
    (cs.map (below i)).foldl (run engine) world = cs.foldl (run engine) world :=
  List.foldl_map

end Completion

namespace Building

variable {findings after : Findings}

theorem complete_ok {name : String} {operator : Operator} {input : Json} {value? : Option Json}
    (hrun : (complete engine name operator input).run.run findings = (.ok value?, after)) :
    value? = (engine.attempt name operator input findings.world).done? ∧
      after.world = (engine.attempt name operator input findings.world).world := by
  obtain ⟨findings', between, hget, hrun⟩ := bind_ok hrun
  obtain rfl : findings = findings' := by cases hget; rfl
  obtain rfl : findings = between := by cases hget; rfl
  dsimp only at hrun
  split at hrun
  next value hresult =>
    obtain ⟨_, between, hset, hrun⟩ := bind_ok hrun
    cases hset
    cases hrun
    refine ⟨?_, rfl⟩
    unfold Moment.done? Engine.attempt
    rw [hresult]
  next hresult =>
    obtain ⟨_, between, hset, hrun⟩ := bind_ok hrun
    cases hset
    cases hrun
    refine ⟨?_, rfl⟩
    unfold Moment.done? Engine.attempt
    split
    next value hvalue => exact absurd hvalue (hresult value)
    next => rfl

theorem world_of_observe {operator : Operator} {x : Unit}
    (hrun : (observe operator).run.run findings = (.ok x, after)) :
    after.world = findings.world := by
  cases hrun
  rfl

theorem world_of_scan {strict : Bool} {depth : Nat} {node : Logic} {x : Unit}
    (hrun : (scan engine strict depth node).run.run findings = (.ok x, after)) :
    after.world = findings.world := by
  obtain ⟨_, between, hget, hrun⟩ := bind_ok hrun
  cases hget
  obtain ⟨needs, between, hscan, hrun⟩ := bind_ok hrun
  cases hrun
  rfl

end Building

namespace Compiled

open Building (bind_ok guard_ok)

theorem folds_complete (hstateless : engine.Stateless) {name : String} {operator : Operator}
    {input : Json} (raw : Logic) (hlookup : engine.registry.lookup name = some operator)
    (htraverse : operator.traverse = true) (hinlinable : operator.isInlinable = true)
    {value? : Option Json} {findings after : Findings}
    (hrun : (Building.complete engine name operator input).run.run findings = (.ok value?, after)) :
    (literal input).calling engine name operator raw =
        value?.elim (.call name operator (.literal input) raw) .literal ∧
      after.world =
        (attempts name operator (.literal input)).foldl (Completion.run engine) findings.world := by
  obtain ⟨hvalue, hworld⟩ := Building.complete_ok hrun
  have hsame := hstateless name operator hlookup htraverse hinlinable input findings.world (.start 0)
  have hconstant : engine.constant? name operator input = value? := (hvalue.trans hsame).symm
  rw [calling_literal hinlinable, attempts_literal hinlinable, hconstant]
  exact ⟨rfl, hworld⟩

/-- What a node compiles to and the world that is left are what folding it says. -/
def FoldsTo (engine : Engine) (node : Logic) (world : World) (compiled : Compiled) (after : World) :
    Prop :=
  compiled = folded engine node ∧
    after = (completions engine node).foldl (Completion.run engine) world

mutual

theorem folds_ofLogic (hstateless : engine.Stateless)
    (hinline : engine.options.disableInline = false) :
    ∀ {node : Logic} {depth : Nat} {compiled : Compiled} {findings after : Findings},
      (ofLogic engine depth node).run.run findings = (.ok compiled, after) →
        FoldsTo engine node findings.world compiled after.world
  | .literal value, depth, compiled, findings, after, hrun => by
      unfold ofLogic at hrun
      cases guard_ok hrun
      exact ⟨rfl, rfl⟩
  | .sequence items, depth, compiled, findings, after, hrun => by
      unfold ofLogic at hrun
      obtain ⟨compiledItems, between, hcompiled, hrun⟩ := bind_ok (guard_ok hrun)
      obtain ⟨rfl, hworld⟩ := folds_ofItems hstateless hinline 0 hcompiled
      have hcollecting : after = between ∧ compiled = collecting (foldedItems engine items) := by
        split at hrun
        next values hvalues =>
          cases hrun
          exact ⟨rfl, (collecting_of_some hvalues).symm⟩
        next hvalues =>
          cases hrun
          exact ⟨rfl, (collecting_of_none hvalues).symm⟩
      rw [hcollecting.1, hcollecting.2]
      exact ⟨rfl, hworld⟩
  | .operation name args, depth, compiled, findings, after, hrun => by
      unfold ofLogic at hrun
      have hrun := guard_ok hrun
      split at hrun
      next => cases hrun
      next operator hlookup =>
        obtain ⟨_, observed, hobserve, hrun⟩ := bind_ok hrun
        have hobserved := Building.world_of_observe hobserve
        split at hrun
        next htraverse =>
          obtain ⟨compiledArgs, between, hcompiled, hrun⟩ := bind_ok hrun
          obtain ⟨hargs, hworld⟩ := folds_ofLogic hstateless hinline hcompiled
          rw [hobserved] at hworld
          unfold FoldsTo
          rw [folded_operation args hlookup htraverse, completions_operation args hlookup htraverse,
            List.foldl_append, Completion.foldl_run_below, ← hargs, ← hworld]
          split at hrun
          next input =>
            split at hrun
            next hboth =>
              have hinlinable : operator.isInlinable = true := (Bool.and_eq_true _ _ ▸ hboth).2
              obtain ⟨value?, between', hcomplete, hrun⟩ := bind_ok hrun
              obtain ⟨hform, hattempted⟩ :=
                folds_complete hstateless args hlookup htraverse hinlinable hcomplete
              rw [hform]
              cases value? with
              | none =>
                  cases hrun
                  exact ⟨rfl, hattempted⟩
              | some value =>
                  cases hrun
                  exact ⟨rfl, hattempted⟩
            next hnot =>
              have hkept : operator.isInlinable = false := by simpa [hinline] using hnot
              cases hrun
              simp [calling, attempts, hkept]
          next hopen =>
            cases hrun
            rw [calling_of_ne_literal hopen, attempts_of_ne_literal hopen]
            exact ⟨rfl, rfl⟩
        next htraverse =>
          obtain ⟨_, between, hscan, hrun⟩ := bind_ok hrun
          cases hrun
          have hscanned := Building.world_of_scan hscan
          simp [FoldsTo, folded, completions, hlookup, htraverse, hscanned, hobserved]

theorem folds_ofItems (hstateless : engine.Stateless)
    (hinline : engine.options.disableInline = false) :
    ∀ {items : List Logic} {depth : Nat} {compiled : List Compiled} {findings after : Findings}
      (i : Nat), (ofItems engine depth items).run.run findings = (.ok compiled, after) →
        compiled = foldedItems engine items ∧
          after.world =
            (itemCompletions engine i items).foldl (Completion.run engine) findings.world
  | [], depth, compiled, findings, after, _, hrun => by
      unfold ofItems at hrun
      cases hrun
      exact ⟨rfl, rfl⟩
  | item :: items, depth, compiled, findings, after, i, hrun => by
      unfold ofItems at hrun
      obtain ⟨first, between, hfirst, hrun⟩ := bind_ok hrun
      obtain ⟨rest, between', hrest, hrun⟩ := bind_ok hrun
      cases hrun
      obtain ⟨rfl, hworld⟩ := folds_ofLogic hstateless hinline hfirst
      obtain ⟨rfl, hworld'⟩ := folds_ofItems hstateless hinline (i + 1) hrest
      rw [itemCompletions, List.foldl_append, Completion.foldl_run_below, ← hworld]
      exact ⟨rfl, hworld'⟩

end

/-- The node compiles to this form, and to no other, on whatever level it stands and whatever has
been found before. -/
def CompilesTo (engine : Engine) (node : Logic) (form : Compiled) : Prop :=
  (∃ depth findings after, (ofLogic engine depth node).run.run findings = (.ok form, after)) ∧
    ∀ depth findings form' after,
      (ofLogic engine depth node).run.run findings = (.ok form', after) → form' = form

/-- The node can be compiled. -/
def Compiles (engine : Engine) (node : Logic) : Prop :=
  ∃ depth findings form after, (ofLogic engine depth node).run.run findings = (.ok form, after)

theorem Compiles.compilesTo (hstateless : engine.Stateless)
    (hinline : engine.options.disableInline = false) {node : Logic}
    (hcompiles : Compiles engine node) : CompilesTo engine node (folded engine node) := by
  obtain ⟨depth, findings, form, after, hrun⟩ := hcompiles
  have hfolds := (folds_ofLogic hstateless hinline hrun).1
  exact ⟨⟨depth, findings, after, hfolds ▸ hrun⟩,
    fun _ _ _ _ hrun' => (folds_ofLogic hstateless hinline hrun').1⟩

theorem CompilesTo.eq_folded (hstateless : engine.Stateless)
    (hinline : engine.options.disableInline = false) {node : Logic} {form : Compiled}
    (hform : CompilesTo engine node form) : form = folded engine node := by
  obtain ⟨⟨depth, findings, after, hrun⟩, -⟩ := hform
  exact (folds_ofLogic hstateless hinline hrun).1

theorem compiles_of_mem {items : List Logic} {depth : Nat} {compiled : List Compiled}
    {findings after : Findings}
    (hrun : (ofItems engine depth items).run.run findings = (.ok compiled, after)) :
    ∀ item ∈ items, Compiles engine item := by
  induction items generalizing compiled findings after with
  | nil => simp
  | cons item items ih =>
      unfold ofItems at hrun
      obtain ⟨first, between, hfirst, hrun⟩ := bind_ok hrun
      obtain ⟨rest, between', hrest, -⟩ := bind_ok hrun
      exact List.forall_mem_cons.mpr ⟨⟨_, _, _, _, hfirst⟩, ih hrest⟩

theorem Compiles.of_openParts {node part : Logic} {i : Nat} (hcompiles : Compiles engine node)
    (hpart : (node.openParts engine)[i]? = some part) : Compiles engine part := by
  obtain ⟨depth, findings, form, after, hrun⟩ := hcompiles
  cases node with
  | literal value => simp [Logic.openParts] at hpart
  | sequence items =>
      unfold ofLogic at hrun
      obtain ⟨compiledItems, between, hcompiled, -⟩ := bind_ok (guard_ok hrun)
      exact compiles_of_mem hcompiled part (List.mem_of_getElem? hpart)
  | operation name args =>
      obtain ⟨-, rfl, operator, hlookup, htraverse⟩ := Logic.openParts_of_operation hpart
      unfold ofLogic at hrun
      have hrun := guard_ok hrun
      simp only [hlookup] at hrun
      obtain ⟨_, observed, -, hrun⟩ := bind_ok hrun
      rw [if_pos htraverse] at hrun
      obtain ⟨compiledArgs, between, hcompiled, -⟩ := bind_ok hrun
      exact ⟨_, _, _, _, hcompiled⟩

theorem Compiles.of_openNode? {node found : Logic} {place : List Nat}
    (hcompiles : Compiles engine node) (hfound : node.openNode? engine place = some found) :
    Compiles engine found := by
  induction place generalizing node with
  | nil =>
      obtain rfl : node = found := Option.some.inj hfound
      exact hcompiles
  | cons i place ih =>
      obtain ⟨part, hpart, hrest⟩ := Logic.openNode?_cons.mp hfound
      exact ih (hcompiles.of_openParts hpart) hrest

end Compiled
end DecisionLogic
