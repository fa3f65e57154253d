import DecisionLogic.Proofs.Inlining.Building
import DecisionLogic.Proofs.Inlining.Execution
import DecisionLogic.Proofs.Program.Folding

/-!
# What a build inlines

While a program is built, exactly the calls that can be completed are tried, each once.  One that
gives a value at once is replaced by the value, and no call of the program invokes its operator
again; every other one stays in the tree.  Nothing is left that could have been replaced.
-/

namespace DecisionLogic

namespace Completion

/-- The operation at the place is one to be completed: its operator is inlinable and traverses, and
its arguments compile to a literal. -/
def IsDue (engine : Engine) (node : Logic) (c : Completion) : Prop :=
  ∃ args, node.openNode? engine c.place = some (.operation c.name args) ∧
    engine.registry.lookup c.name = some c.operator ∧ c.operator.traverse = true ∧
    c.operator.isInlinable = true ∧ Compiled.CompilesTo engine args (.literal c.input)

def invocation (c : Completion) : Invocation :=
  ⟨c.name, c.operator.origin, .evaluated c.input⟩

/-- The call invokes no operator but its own. -/
def Alone (engine : Engine) (c : Completion) : Prop :=
  ∀ world, (c.run engine world).trace = c.invocation :: world.trace

theorem trace_foldl_run {engine : Engine} {cs : List Completion}
    (halone : ∀ c ∈ cs, c.Alone engine) (world : World) :
    (cs.foldl (run engine) world).trace = (cs.map invocation).reverse ++ world.trace := by
  induction cs generalizing world with
  | nil => rfl
  | cons c cs ih =>
      obtain ⟨hfirst, hrest⟩ := List.forall_mem_cons.mp halone
      rw [List.foldl_cons, ih hrest, hfirst, List.map_cons, List.reverse_cons,
        List.append_assoc]
      rfl

end Completion

variable {engine : Engine}

open Compiled (CompilesTo Compiles folded completions)

/-- How the calls tried while a program was built from a node relate to the node, the program and
the worlds before and after. -/
structure Program.Inlines (engine : Engine) (node : Logic) (world after : World)
    (program : Program) (tried : List Completion) : Prop where
  /-- What is tried is what is to be completed. -/
  due : ∀ c, c ∈ tried ↔ c.IsDue engine node
  /-- No operation is tried twice. -/
  once : (tried.map Completion.place).Nodup
  /-- The calls are made one after the other, and nothing else happens. -/
  ran : after = tried.foldl (Completion.run engine) world
  traced : (∀ c ∈ tried, c.Alone engine) →
    after.trace = (tried.map Completion.invocation).reverse ++ world.trace
  settled : ∀ c ∈ tried, ∃ value?, c.Gives engine value?
  /-- The nodes of the tree are what the nodes at their places compile to. -/
  compiled : ∀ place part, program.root.node? place = some part →
    ∃ found, node.openNode? engine place = some found ∧ CompilesTo engine found part
  /-- A call that gives a value is that value, and is not made again. -/
  replaced : ∀ c ∈ tried, ∀ value, c.Gives engine (some value) →
    (∃ found, node.openNode? engine c.place = some found ∧
      CompilesTo engine found (.literal value)) ∧
    (∀ part, program.root.node? c.place = some part → part = .literal value) ∧
    ∀ data invoke, (∀ place, place ≠ c.place → invoke place = callOperator) →
      program.root.executeThrough engine (.withAbove data program.above) invoke =
        program.call data
  /-- A call that gives none stays, and is made again when it is reached. -/
  kept : ∀ c ∈ tried, c.Gives engine none →
    ∃ raw, program.root.node? c.place =
        some (.call c.name c.operator (.literal c.input) raw) ∧
      ∀ invoke scope later, later.cancelled = false →
        (Compiled.call c.name c.operator (.literal c.input) raw).executeThrough engine scope invoke
            later =
          invoke [] c.name c.operator (.evaluated c.input) scope
            (engine.handle (engine.evaluate engine.levels)) later
  noneLeft : ∀ place items, program.root.node? place = some (.sequence items) →
    Compiled.literals? items = none
  allTried : ∀ place name operator input raw,
    program.root.node? place = some (.call name operator (.literal input) raw) →
      operator.isInlinable = true →
        ⟨place, name, operator, input⟩ ∈ tried ∧
          Completion.Gives engine ⟨place, name, operator, input⟩ none

/-! ## The calls of one tree -/

variable {node : Logic} {c : Completion}

theorem Compiled.TriesWith.gives_iff (hstateless : engine.Stateless) {args : Logic}
    (htries : TriesWith engine args c) {value? : Option Json} :
    c.Gives engine value? ↔ engine.constant? c.name c.operator c.input = value? := by
  obtain ⟨hlookup, htraverse, hinlinable, -⟩ := htries
  have hsame := hstateless c.name c.operator hlookup htraverse hinlinable c.input
  exact ⟨fun hgives => hgives (.start 0), fun hconstant world => (hsame world _).trans hconstant⟩

theorem Compiled.TriesWith.folded_operation {args : Logic} (htries : TriesWith engine args c) :
    folded engine (.operation c.name args) =
      (engine.constant? c.name c.operator c.input).elim
        (.call c.name c.operator (.literal c.input) args) .literal := by
  obtain ⟨hlookup, htraverse, hinlinable, hargs⟩ := htries
  rw [Compiled.folded_operation args hlookup htraverse, hargs, calling_literal hinlinable]

theorem mem_completions_iff_isDue (hstateless : engine.Stateless)
    (hinline : engine.options.disableInline = false) (hcompiles : Compiles engine node) :
    c ∈ completions engine node ↔ c.IsDue engine node := by
  rw [Compiled.mem_completions_iff]
  constructor
  · rintro ⟨args, hnode, hlookup, htraverse, hinlinable, hargs⟩
    have hpart : ((Logic.operation c.name args).openParts engine)[0]? = some args := by
      rw [Logic.openParts_operation hlookup htraverse]
      rfl
    have hform := ((hcompiles.of_openNode? hnode).of_openParts hpart).compilesTo hstateless hinline
    exact ⟨args, hnode, hlookup, htraverse, hinlinable, hargs ▸ hform⟩
  · rintro ⟨args, hnode, hlookup, htraverse, hinlinable, hform⟩
    exact ⟨args, hnode, hlookup, htraverse, hinlinable,
      (hform.eq_folded hstateless hinline).symm⟩

/-- The node at a place of a folded tree is what the node of the logic there folds to. -/
theorem eq_folded_of_node? {found : Logic} {part : Compiled} {place : List Nat}
    (hfound : node.openNode? engine place = some found)
    (hpart : (folded engine node).node? place = some part) : part = folded engine found := by
  obtain ⟨found', hfound', rfl⟩ := Compiled.node?_folded hpart
  rw [hfound] at hfound'
  cases hfound'
  rfl

theorem executeThrough_call_literal {name : String} {operator : Operator} {input : Json}
    {raw : Logic} (scope : Scope) (invoke : Invocations) {world : World}
    (hactive : world.cancelled = false) :
    (Compiled.call name operator (.literal input) raw).executeThrough engine scope invoke world =
      invoke [] name operator (.evaluated input) scope
        (engine.handle (engine.evaluate engine.levels)) world := by
  have hpassed : Computation.checkCancelled world = .finished world (.ok ()) := by
    simp [Computation.checkCancelled, hactive]
  rw [Compiled.executeThrough, Compiled.executeThrough]
  simp only [Computation.bind_apply, hpassed, Moment.andThen, Computation.pure_apply]

namespace Program

variable {logic : Json} {above : List Json} {world after : World} {program : Program}

theorem world_of_build {node : Logic} {root : Compiled} {findings : Findings}
    (hparse : Logic.parseBounded engine.options.maxDepth logic = .ok node)
    (hrun : (Compiled.ofLogic engine 0 node).run.run ⟨.none, 0, world⟩ = (.ok root, findings)) :
    (build engine logic above world).2 = findings.world := by
  unfold build
  rw [hparse]
  dsimp only
  rw [hrun]

/-- A build that inlines tries exactly the calls that are to be completed, each once, and leaves in
the tree those that give no value. -/
theorem build_inlines (hstateless : engine.Stateless)
    (hinline : engine.options.disableInline = false)
    (hbuild : build engine logic above world = (.ok program, after)) :
    ∃ node tried, Logic.parseBounded engine.options.maxDepth logic = .ok node ∧
      program.Inlines engine node world after tried := by
  obtain ⟨node, root, findings, hparse, hrun, rfl⟩ := ofLogic_of_build (congrArg Prod.fst hbuild)
  obtain ⟨rfl, hworld⟩ := Compiled.folds_ofLogic hstateless hinline hrun
  obtain rfl : findings.world = after := by
    rw [← world_of_build hparse hrun, hbuild]
  have hcompiles : Compiles engine node := ⟨_, _, _, _, hrun⟩
  refine ⟨node, completions engine node, hparse, ?_⟩
  exact {
    due := fun c => mem_completions_iff_isDue hstateless hinline hcompiles
    once := Compiled.completions_nodup node
    ran := hworld
    traced := fun halone => hworld ▸ Completion.trace_foldl_run halone world
    settled := by
      intro c hmem
      obtain ⟨args, -, htries⟩ := Compiled.mem_completions_iff.mp hmem
      exact ⟨_, (htries.gives_iff hstateless).mpr rfl⟩
    compiled := by
      intro place part hpart
      obtain ⟨found, hfound, rfl⟩ := Compiled.node?_folded hpart
      exact ⟨found, hfound, (hcompiles.of_openNode? hfound).compilesTo hstateless hinline⟩
    replaced := by
      intro c hmem value hgives
      obtain ⟨args, hnode, htries⟩ := Compiled.mem_completions_iff.mp hmem
      have hfolded : folded engine (.operation c.name args) = .literal value := by
        rw [htries.folded_operation, (htries.gives_iff hstateless).mp hgives]
        rfl
      have hform := (hcompiles.of_openNode? hnode).compilesTo hstateless hinline
      have hliteral : ∀ part, (folded engine node).node? c.place = some part →
          part = .literal value := fun part hpart =>
        (eq_folded_of_node? hnode hpart).trans hfolded
      refine ⟨⟨_, hnode, hfolded ▸ hform⟩, hliteral, fun data invoke hinvoke => ?_⟩
      refine Compiled.executeThrough_of_not_call (fun found hfound => ?_) hinvoke
      rw [hliteral found hfound]
      rfl
    kept := by
      intro c hmem hgives
      obtain ⟨args, hnode, htries⟩ := Compiled.mem_completions_iff.mp hmem
      have hfolded : folded engine (.operation c.name args) =
          .call c.name c.operator (.literal c.input) args := by
        rw [htries.folded_operation, (htries.gives_iff hstateless).mp hgives]
        rfl
      have hplace := Compiled.node?_of_openNode? hnode fun value => by
        rw [hfolded]
        exact nofun
      exact ⟨args, hfolded ▸ hplace, fun invoke scope later hactive =>
        executeThrough_call_literal scope invoke hactive⟩
    noneLeft := by
      intro place items hplace
      obtain ⟨found, -, hfolded⟩ := Compiled.node?_folded hplace
      exact Compiled.folded_eq_sequence hfolded
    allTried := by
      intro place name operator input raw hplace hinlinable
      obtain ⟨found, hfound, hfolded⟩ := Compiled.node?_folded hplace
      obtain ⟨rfl, hlookup, htraverse, hargs, hnone⟩ := Compiled.folded_eq_call hfolded
      have htries : Compiled.TriesWith engine raw ⟨place, name, operator, input⟩ :=
        ⟨hlookup, htraverse, hinlinable, hargs⟩
      exact ⟨Compiled.mem_completions_iff.mpr ⟨raw, hfound, htries⟩,
        (htries.gives_iff hstateless).mpr (hnone input rfl hinlinable)⟩ }

end Program

/-! ## An operator that refuses -/

/-- Standard operators that are inlinable remember nothing, and neither do others that look at their
arguments alone. -/
theorem Engine.stateless_of_arguments
    (harguments : ∀ name operator, engine.registry.lookup name = some operator →
      operator.traverse = true → operator.isInlinable = true →
        ∃ f, operator.body = .immediate (Standard.ofArguments f)) : engine.Stateless := by
  intro name operator hlookup htraverse hinlinable input world world'
  obtain ⟨f, hbody⟩ := harguments name operator hlookup htraverse hinlinable
  unfold attempt
  rw [callOperator_arguments hbody, callOperator_arguments hbody]
  rfl

def refuseOperator : Operator :=
  { body := .immediate (Standard.ofArguments fun _ => .error (.anonymous "refused")),
    traverse := true, deterministic := true, yields := false, useContext := false,
    rawData := false, sync := true, origin := .custom }

def refusingEngine : Engine :=
  ⟨Standard.registry.insert "refuse" refuseOperator, {}⟩

theorem refusingEngine_stateless : refusingEngine.Stateless := by
  refine Engine.stateless_of_arguments fun name operator hlookup htraverse hinlinable => ?_
  by_cases hname : "refuse" = name
  · subst hname
    have hrefuse : refusingEngine.registry.lookup "refuse" = some refuseOperator :=
      Registry.lookup_insert_self _ _ _
    rw [hrefuse] at hlookup
    cases hlookup
    exact ⟨_, rfl⟩
  · have hstandard : Standard.registry.lookup name = some operator := by
      rw [← hlookup]
      exact (Registry.lookup_insert_of_ne _ hname refuseOperator).symm
    cases Standard.standardOperator_of_lookup hstandard with
    | arguments name f => exact ⟨f, rfl⟩
    | preserve => cases htraverse
    | scope | lazy => cases hinlinable

def refusingLogic : Json :=
  .array [.object [("!", .bool true)], .object [("refuse", .object [("!", .bool false)])],
    .object [("var", .string "x")]]

/-- The negations are replaced by their values, and the call that refuses stays. -/
theorem build_inlines_refusing :
    refusingEngine.Stateless ∧ refusingEngine.options.disableInline = false ∧
      ∃ program after,
        Program.build refusingEngine refusingLogic [] (.start 0) = (.ok program, after) ∧
        program.root.node? [0] = some (.literal (.bool false)) ∧
        program.root.node? [1, 0] = some (.literal (.bool true)) ∧
        ∃ node tried, Logic.parseBounded refusingEngine.options.maxDepth refusingLogic = .ok node ∧
          program.Inlines refusingEngine node (.start 0) after tried :=
  ⟨refusingEngine_stateless, rfl, _, _, rfl, rfl, rfl,
    Program.build_inlines refusingEngine_stateless rfl rfl⟩

end DecisionLogic
