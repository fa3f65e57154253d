import DecisionLogic.Proofs.Program.Height
import DecisionLogic.Proofs.Provenance.Intact

/-!
# Levels that evaluations get by with

The height of a tree is not what decides whether its evaluation runs out of levels: raw arguments
are evaluated one level below their operation, whether they come in a sequence or not.  A tree that
continues a suspension keeps each argument on the level it was on, but it has sequences where the
logic had none, so it can be higher than the logic that was parsed and still need no more levels.
-/

namespace DecisionLogic

/-- No evaluation of the tree needs more than this number of levels. -/
inductive Logic.Bounded (registry : Registry) : Nat → Logic → Prop
  | literal {levels : Nat} (value : Json) : Bounded registry (levels + 1) (.literal value)
  | sequence {levels : Nat} {items : List Logic}
      (hitems : ∀ item ∈ items, Bounded registry levels item) :
      Bounded registry (levels + 1) (.sequence items)
  | unknown {levels : Nat} {name : String} {args : Logic} (hlookup : registry.lookup name = none) :
      Bounded registry (levels + 1) (.operation name args)
  | traversing {levels : Nat} {name : String} {args : Logic} {operator : Operator}
      (hlookup : registry.lookup name = some operator) (htraverse : operator.traverse = true)
      (hargs : Bounded registry levels args) : Bounded registry (levels + 1) (.operation name args)
  /-- The body of an iteration is evaluated even if there is no argument for it. -/
  | raw {levels : Nat} {name : String} {args : Logic} {operator : Operator}
      (hlookup : registry.lookup name = some operator) (htraverse : operator.traverse = false)
      (hlevels : 0 < levels) (harguments : ∀ node ∈ args.arguments, Bounded registry levels node) :
      Bounded registry (levels + 1) (.operation name args)

variable {registry : Registry} {levels : Nat}

namespace Logic

variable {name : String} {args node : Logic} {operator : Operator}

theorem Bounded.pos (hbounded : node.Bounded registry levels) : 0 < levels := by
  cases hbounded <;> exact Nat.succ_pos _

theorem Bounded.exists_succ (hbounded : node.Bounded registry levels) :
    ∃ fewer, levels = fewer + 1 :=
  Nat.exists_eq_add_one_of_ne_zero hbounded.pos.ne'

theorem bounded_literal (hlevels : 0 < levels) (value : Json) :
    (Logic.literal value).Bounded registry levels := by
  obtain ⟨fewer, rfl⟩ := Nat.exists_eq_add_one_of_ne_zero hlevels.ne'
  exact .literal value

theorem Bounded.succ (hbounded : node.Bounded registry levels) :
    node.Bounded registry (levels + 1) := by
  induction hbounded with
  | literal value => exact .literal value
  | sequence _ ih => exact .sequence ih
  | unknown hlookup => exact .unknown hlookup
  | traversing hlookup htraverse _ ih => exact .traversing hlookup htraverse ih
  | raw hlookup hraw hlevels _ ih => exact .raw hlookup hraw (Nat.lt_succ_of_lt hlevels) ih

theorem Bounded.mono {more : Nat} (hbounded : node.Bounded registry levels)
    (hle : levels ≤ more) : node.Bounded registry more := by
  induction hle with
  | refl => exact hbounded
  | step _ ih => exact ih.succ

theorem Bounded.of_traversing (hbounded : (operation name args).Bounded registry (levels + 1))
    (hlookup : registry.lookup name = some operator) (htraverse : operator.traverse = true) :
    args.Bounded registry levels := by
  cases hbounded with
  | unknown hunknown => cases hlookup.symm.trans hunknown
  | traversing _ _ hargs => exact hargs
  | raw hother hraw _ _ =>
      cases hlookup.symm.trans hother
      cases htraverse.symm.trans hraw

theorem Bounded.of_raw (hbounded : (operation name args).Bounded registry (levels + 1))
    (hlookup : registry.lookup name = some operator) (hraw : operator.traverse = false) :
    0 < levels ∧ ∀ node ∈ args.arguments, node.Bounded registry levels := by
  cases hbounded with
  | unknown hunknown => cases hlookup.symm.trans hunknown
  | traversing hother htraverse _ =>
      cases hlookup.symm.trans hother
      cases htraverse.symm.trans hraw
  | raw _ _ hlevels harguments => exact ⟨hlevels, harguments⟩

/-- Raw arguments need at most the levels that they have in the tree. -/
theorem Bounded.argument (hargs : args.Bounded registry levels) :
    ∀ node ∈ args.arguments, node.Bounded registry levels := by
  intro node hnode
  cases args with
  | sequence items =>
      cases hargs with
      | sequence hitems => exact (hitems node hnode).succ
  | literal value => exact List.mem_singleton.mp hnode ▸ hargs
  | operation name args => exact List.mem_singleton.mp hnode ▸ hargs

mutual

theorem bounded_of_height (registry : Registry) : ∀ {node : Logic} {levels : Nat},
    node.height ≤ levels → node.Bounded registry levels
  | .literal value, _, hheight => bounded_literal (Nat.lt_of_succ_le hheight) value
  | .sequence items, _ + 1, hheight =>
      .sequence (bounded_of_itemsHeight registry (Nat.le_of_succ_le_succ hheight))
  | .operation name args, levels + 1, hheight => by
      have hargs : args.Bounded registry levels :=
        bounded_of_height registry (Nat.le_of_succ_le_succ hheight)
      cases hlookup : registry.lookup name with
      | none => exact .unknown hlookup
      | some operator =>
          cases htraverse : operator.traverse with
          | true => exact .traversing hlookup htraverse hargs
          | false => exact .raw hlookup htraverse hargs.pos hargs.argument

theorem bounded_of_itemsHeight (registry : Registry) : ∀ {items : List Logic} {levels : Nat},
    itemsHeight items ≤ levels → ∀ item ∈ items, item.Bounded registry levels
  | [], _, _, _, hmem => absurd hmem List.not_mem_nil
  | first :: rest, levels, hheight, item, hmem => by
      rw [itemsHeight, Nat.max_le] at hheight
      rcases List.mem_cons.mp hmem with heq | hrest
      · exact heq ▸ bounded_of_height registry hheight.1
      · exact bounded_of_itemsHeight registry hheight.2 item hrest

end

theorem bounded_of_parseBounded {limit : Nat} {value : Json}
    (hparse : parseBounded limit value = .ok node) : node.Bounded registry (limit + 1) :=
  bounded_of_height registry (height_of_parseBounded hparse)

end Logic

/-! ## Suspensions -/

namespace PartialTree

/-- No tree that continues the partial tree needs more than this number of levels. -/
def Bounded (registry : Registry) (levels : Nat) (tree : PartialTree) : Prop :=
  ∀ replacements node used, tree.rebuild replacements = .ok (node, used) →
    node.Bounded registry levels

variable {tree : PartialTree}

theorem Bounded.mono {more : Nat} (hbounded : tree.Bounded registry levels)
    (hle : levels ≤ more) : tree.Bounded registry more :=
  fun replacements node used hrebuild => (hbounded replacements node used hrebuild).mono hle

theorem bounded_done (hlevels : 0 < levels) (value : Json) :
    (done value).Bounded registry levels := by
  intro replacements node used hrebuild
  unfold rebuild at hrebuild
  cases hrebuild
  exact Logic.bounded_literal hlevels value

theorem bounded_point (hlevels : 0 < levels) (p : SuspensionPoint) :
    (point p).Bounded registry levels := by
  intro replacements node used hrebuild
  unfold rebuild at hrebuild
  split at hrebuild
  · cases hrebuild
    exact Logic.bounded_literal hlevels _
  · cases hrebuild

theorem bounded_ofLogic {node : Logic} (hplain : node.Plain)
    (hbounded : node.Bounded registry levels) : (ofLogic node).Bounded registry levels := by
  intro replacements rebuilt used hrebuild
  rw [eq_of_rebuild_ofLogic hplain hrebuild]
  exact hbounded

theorem bounded_items {replacements : Replacements} {items : List PartialTree}
    {nodes : List Logic} (hitems : ∀ item ∈ items, item.Bounded registry levels)
    (hnodes : List.Forall₂ (fun item node => ∃ used, item.rebuild replacements = .ok (node, used))
      items nodes) : ∀ node ∈ nodes, node.Bounded registry levels := by
  induction hnodes with
  | nil => simp
  | cons hfirst _ ih =>
      obtain ⟨used, hfirst⟩ := hfirst
      rw [List.forall_mem_cons] at hitems ⊢
      exact ⟨hitems.1 replacements _ used hfirst, ih hitems.2⟩

theorem bounded_sequence {items : List PartialTree}
    (hitems : ∀ item ∈ items, item.Bounded registry levels) :
    (sequence items).Bounded registry (levels + 1) := by
  intro replacements node used hrebuild
  obtain ⟨nodes, rfl, hnodes⟩ := exists_of_rebuild_sequence hrebuild
  exact .sequence (bounded_items hitems hnodes)

theorem Bounded.toLogic {suspension : Suspension} {replacements : Replacements} {node : Logic}
    (hbounded : suspension.root.Bounded registry levels)
    (hnode : suspension.toLogic replacements = .ok node) : node.Bounded registry levels := by
  unfold Suspension.toLogic at hnode
  split at hnode
  next => cases hnode
  next rebuilt used hrebuild =>
    split at hnode
    · cases hnode
      exact hbounded replacements _ used hrebuild
    · cases hnode

end PartialTree

namespace Suspension

variable {name : String} {input : Json} {operator : Operator}

theorem withinCall_bounded {s : Suspension} (hlookup : registry.lookup name = some operator)
    (htraverse : operator.traverse = true) (hbounded : s.root.Bounded registry levels) :
    (s.withinCall name input).root.Bounded registry (levels + 1) := by
  intro replacements node used hrebuild
  obtain ⟨args, rfl, _, hargs⟩ := PartialTree.exists_of_rebuild_call hrebuild
  exact .traversing hlookup htraverse (hbounded replacements args _ hargs)

/-- The list of arguments adds no level to what each of them needs. -/
theorem ofArguments_bounded {args : List PartialTree}
    (hlookup : registry.lookup name = some operator) (hraw : operator.traverse = false)
    (hlevels : 0 < levels) (hargs : ∀ tree ∈ args, tree.Bounded registry levels) :
    (ofArguments name input args).root.Bounded registry (levels + 1) := by
  intro replacements node used hrebuild
  obtain ⟨rebuilt, rfl, _, hrebuilt⟩ := PartialTree.exists_of_rebuild_call hrebuild
  obtain ⟨nodes, rfl, hnodes⟩ := PartialTree.exists_of_rebuild_sequence hrebuilt
  exact .raw hlookup hraw hlevels (PartialTree.bounded_items hargs hnodes)

end Suspension
end DecisionLogic
