import DecisionLogic.Proofs.Alike.Operator
import DecisionLogic.Proofs.Program.Kinds
import DecisionLogic.Proofs.Resumption.Plain

/-!
# Names that a build has looked up

A tree is resolved when every operation of it that evaluation can reach has a known name; what is
below an operation that takes its raw arguments as data is not reached.  Compiling looks up every
name on its way.  The scan of raw arguments stops looking below every operator annotated to hold
data, also below one that has its arguments evaluated first, so a tree that compiles is resolved
where no such operator stands in raw arguments.
-/

namespace DecisionLogic

/-- The operator takes its raw arguments as data. -/
def Operator.TakesData (operator : Operator) : Prop :=
  operator.traverse = false ∧ operator.rawData = true

namespace Logic

/-- The node stands in the tree, and not below an operation that takes its arguments as data. -/
inductive Live (registry : Registry) (node : Logic) : Logic → Prop
  | self : Live registry node node
  | item {item : Logic} {items : List Logic} (hitem : item ∈ items)
      (hlive : Live registry node item) : Live registry node (.sequence items)
  | args {name : String} {args : Logic}
      (hevaluates : ∀ operator, registry.lookup name = some operator → ¬ operator.TakesData)
      (hlive : Live registry node args) : Live registry node (.operation name args)

/-- The live operations of the tree are all of one sort. -/
def Throughout (registry : Registry) (sort : String → Logic → Prop) (node : Logic) : Prop :=
  ∀ name args, (operation name args).Live registry node → sort name args

/-- The live operations of the tree have known names. -/
def Resolved (registry : Registry) (node : Logic) : Prop :=
  node.Throughout registry fun name _ => registry.contains name = true

/-- No live operation of the tree has its arguments evaluated first although its operator is
annotated to hold data. -/
def Unambiguous (registry : Registry) (node : Logic) : Prop :=
  node.Throughout registry fun name _ => ∀ operator, registry.lookup name = some operator →
    operator.rawData = true → operator.traverse = false

/-- Raw arguments that are evaluated are unambiguous, wherever they stand. -/
def UnambiguousRaw (registry : Registry) (node : Logic) : Prop :=
  node.Throughout registry fun name args => ∀ operator, registry.lookup name = some operator →
    operator.traverse = false → operator.rawData = false → args.Unambiguous registry

variable {registry : Registry} {sort : String → Logic → Prop} {node tree args : Logic}
  {items : List Logic} {name : String} {operator : Operator}

theorem Live.trans {inner : Logic} (hinner : inner.Live registry node)
    (hnode : node.Live registry tree) : inner.Live registry tree := by
  induction hnode with
  | self => exact hinner
  | item hitem _ ih => exact .item hitem ih
  | args hevaluates _ ih => exact .args hevaluates ih

theorem live_args (hlookup : registry.lookup name = some operator) (hdata : ¬ operator.TakesData) :
    args.Live registry (.operation name args) := by
  refine .args (fun found hfound => ?_) .self
  obtain rfl : operator = found := Option.some.inj (hlookup.symm.trans hfound)
  exact hdata

theorem live_of_mem_arguments (hnode : node ∈ args.arguments) : node.Live registry args := by
  cases args with
  | sequence items => exact .item hnode .self
  | literal value => exact List.mem_singleton.mp hnode ▸ .self
  | operation name args => exact List.mem_singleton.mp hnode ▸ .self

theorem Throughout.live (htree : tree.Throughout registry sort) (hlive : node.Live registry tree) :
    node.Throughout registry sort :=
  fun name args hinner => htree name args (hinner.trans hlive)

theorem throughout_literal (value : Json) : (literal value).Throughout registry sort := by
  intro name args hlive
  cases hlive

theorem throughout_sequence (hitems : ∀ item ∈ items, item.Throughout registry sort) :
    (sequence items).Throughout registry sort := by
  intro name args hlive
  cases hlive with
  | item hitem hlive => exact hitems _ hitem name args hlive

theorem throughout_operation (hlookup : registry.lookup name = some operator)
    (hself : sort name args) (hargs : ¬ operator.TakesData → args.Throughout registry sort) :
    (operation name args).Throughout registry sort := by
  intro inner innerArgs hlive
  cases hlive with
  | self => exact hself
  | args hevaluates hlive => exact hargs (hevaluates operator hlookup) inner innerArgs hlive

theorem resolved_operation (hlookup : registry.lookup name = some operator)
    (hargs : ¬ operator.TakesData → args.Resolved registry) :
    (operation name args).Resolved registry :=
  throughout_operation hlookup (by rw [Registry.contains, hlookup, Option.isSome_some]) hargs

end Logic

variable {engine : Engine}

/-! ## Scanning -/

namespace Needs

mutual

theorem resolved_of_scan : ∀ {node : Logic} {needs after : Needs} {depth : Nat},
    scan engine needs true depth node = .ok after → node.Unambiguous engine.registry →
      node.Resolved engine.registry
  | .literal value, _, _, _, _, _ => Logic.throughout_literal value
  | .sequence items, needs, after, depth, hscan, hunambiguous => by
      unfold scan at hscan
      split at hscan
      · cases hscan
      · exact Logic.throughout_sequence (resolved_of_scanItems hscan fun item hitem =>
          hunambiguous.live (.item hitem .self))
  | .operation name args, needs, after, depth, hscan, hunambiguous => by
      unfold scan at hscan
      split at hscan
      · cases hscan
      · split at hscan
        next operator hlookup =>
          refine Logic.resolved_operation hlookup fun hdata => ?_
          -- Below an operator annotated to hold data the scan is not strict any more.
          have hstrict : operator.rawData = false := by
            rw [Bool.eq_false_iff]
            exact fun hraw => hdata ⟨hunambiguous name args .self operator hlookup hraw, hraw⟩
          rw [hstrict] at hscan
          exact resolved_of_scan hscan (hunambiguous.live (Logic.live_args hlookup hdata))
        next hlookup => cases hscan

theorem resolved_of_scanItems : ∀ {items : List Logic} {needs after : Needs} {depth : Nat},
    scanItems engine needs true depth items = .ok after →
      (∀ item ∈ items, item.Unambiguous engine.registry) →
        ∀ item ∈ items, item.Resolved engine.registry
  | [], _, _, _, _, _ => nofun
  | item :: items, needs, after, depth, hscan, hunambiguous => by
      unfold scanItems at hscan
      rw [List.forall_mem_cons] at hunambiguous ⊢
      split at hscan
      next => cases hscan
      next between hitem =>
        exact ⟨resolved_of_scan hitem hunambiguous.1, resolved_of_scanItems hscan hunambiguous.2⟩

end

end Needs

/-! ## Compiling -/

namespace Compiled

open Building (bind_ok guard_ok)

mutual

theorem resolved_of_ofLogic : ∀ {node : Logic} {depth : Nat} {compiled : Compiled}
    {findings after : Findings},
    (ofLogic engine depth node).run.run findings = (.ok compiled, after) →
      node.UnambiguousRaw engine.registry → node.Resolved engine.registry
  | .literal value, _, _, _, _, _, _ => Logic.throughout_literal value
  | .sequence items, depth, compiled, findings, after, hrun, hraw => by
      unfold ofLogic at hrun
      obtain ⟨compiledItems, between, hcompiled, -⟩ := bind_ok (guard_ok hrun)
      exact Logic.throughout_sequence (resolved_of_ofItems hcompiled fun item hitem =>
        hraw.live (.item hitem .self))
  | .operation name args, depth, compiled, findings, after, hrun, hraw => by
      unfold ofLogic at hrun
      have hrun := guard_ok hrun
      split at hrun
      next => cases hrun
      next operator hlookup =>
        refine Logic.resolved_operation hlookup fun hdata => ?_
        obtain ⟨_, observed, -, hrun⟩ := bind_ok hrun
        split at hrun
        next htraverse =>
          obtain ⟨compiledArgs, between, hcompiled, -⟩ := bind_ok hrun
          exact resolved_of_ofLogic hcompiled (hraw.live (Logic.live_args hlookup hdata))
        next htraverse =>
          rw [Bool.not_eq_true] at htraverse
          have hstrict : operator.rawData = false := by
            rw [Bool.eq_false_iff]
            exact fun hholds => hdata ⟨htraverse, hholds⟩
          obtain ⟨_, between, hscan, -⟩ := bind_ok hrun
          rw [hstrict] at hscan
          exact Needs.resolved_of_scan (Building.needs_of_scan hscan)
            (hraw name args .self operator hlookup htraverse hstrict)

theorem resolved_of_ofItems : ∀ {items : List Logic} {depth : Nat} {compiled : List Compiled}
    {findings after : Findings},
    (ofItems engine depth items).run.run findings = (.ok compiled, after) →
      (∀ item ∈ items, item.UnambiguousRaw engine.registry) →
        ∀ item ∈ items, item.Resolved engine.registry
  | [], _, _, _, _, _, _ => nofun
  | item :: items, depth, compiled, findings, after, hrun, hraw => by
      unfold ofItems at hrun
      rw [List.forall_mem_cons] at hraw ⊢
      obtain ⟨first, between, hfirst, hrun⟩ := bind_ok hrun
      obtain ⟨rest, between', hrest, -⟩ := bind_ok hrun
      exact ⟨resolved_of_ofLogic hfirst hraw.1, resolved_of_ofItems hrest hraw.2⟩

end

end Compiled

/-- A build that succeeds has resolved its logic. -/
theorem Program.resolved_of_build {logic : Json} {above : List Json} {world : World}
    {program : Program} (hbuild : (Program.build engine logic above world).1 = .ok program)
    (hraw : (Logic.parse logic).UnambiguousRaw engine.registry) :
    (Logic.parse logic).Resolved engine.registry := by
  obtain ⟨node, root, findings, hparse, hrun, -⟩ := ofLogic_of_build hbuild
  obtain rfl := Logic.parse_of_parseAt hparse
  exact Compiled.resolved_of_ofLogic hrun hraw

end DecisionLogic
