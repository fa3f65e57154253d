import DecisionLogic.Proofs.Congruence.Basic
import DecisionLogic.Proofs.Resumption.Plain

/-!
# Trees without foreign operations

A tree is intact when all its operations have names that are given, and when whatever a suspension
keeps of raw arguments as a value reads back as it was.  Trees that were read are intact, and a
suspension mends when every tree that continues it is intact, whatever the values in the places of
its points are.
-/

namespace DecisionLogic

/-- What is kept of the raw arguments of `name` when one of them is suspended reads back.  A fold
that has its items keeps nothing but its body. -/
def Logic.ReadsBack (name : String) (args : Logic) : Prop :=
  (∀ node ∈ args.arguments.tail, node.Plain) ∨
    name = "reduce" ∧ (∃ value, args.arguments.head? = some (.literal value)) ∧
      (args.arguments.getD 1 (.literal .null)).Plain

inductive Logic.Intact (registry : Registry) (names : String → Prop) : Logic → Prop
  | literal (value : Json) : Intact registry names (.literal value)
  | sequence {items : List Logic} (hitems : ∀ item ∈ items, Intact registry names item) :
      Intact registry names (.sequence items)
  | operation {name : String} {args : Logic} (hname : names name)
      (hargs : Intact registry names args)
      (hraw : ∀ operator, registry.lookup name = some operator → operator.traverse = false →
        args.ReadsBack name) :
      Intact registry names (.operation name args)

variable {registry : Registry} {names : String → Prop}

namespace Logic

theorem Intact.argument {args : Logic} (hintact : args.Intact registry names) :
    ∀ node ∈ args.arguments, node.Intact registry names := by
  intro node hnode
  cases hintact with
  | sequence hitems => exact hitems node hnode
  | literal value =>
      rw [List.mem_singleton.mp hnode]
      exact .literal value
  | operation hname hargs hraw =>
      rw [List.mem_singleton.mp hnode]
      exact .operation hname hargs hraw

mutual

theorem Plain.intact : ∀ {tree : Logic}, tree.Plain →
    (∀ name args, (Logic.operation name args).Within tree → names name) →
      tree.Intact registry names
  | .literal value, _, _ => .literal value
  | .sequence items, hplain, hnames =>
      .sequence (intact_of_plain hplain.item fun item hitem name args hwithin =>
        hnames name args (.item hitem hwithin))
  | .operation name args, hplain, hnames => by
      refine .operation (hnames name args (.self _)) ?_ fun _ _ _ => .inl fun node hnode => ?_
      · exact Plain.intact hplain.args fun inner innerArgs hwithin =>
          hnames inner innerArgs (.args hwithin)
      · exact hplain.argument node (List.mem_of_mem_tail hnode)

theorem intact_of_plain : ∀ {items : List Logic}, (∀ item ∈ items, item.Plain) →
    (∀ item ∈ items, ∀ name args, (Logic.operation name args).Within item → names name) →
      ∀ item ∈ items, item.Intact registry names
  | [], _, _, _, hmem => absurd hmem List.not_mem_nil
  | first :: rest, hplain, hnames, item, hmem => by
      rcases List.mem_cons.mp hmem with heq | hrest
      · rw [heq]
        exact Plain.intact (hplain first List.mem_cons_self) (hnames first List.mem_cons_self)
      · exact intact_of_plain (fun other hother => hplain other (List.mem_cons_of_mem _ hother))
          (fun other hother => hnames other (List.mem_cons_of_mem _ hother)) item hrest

end

end Logic

/-! ## Suspensions -/

namespace PartialTree

/-- Every tree that continues the partial tree is intact. -/
def Mends (registry : Registry) (names : String → Prop) (tree : PartialTree) : Prop :=
  ∀ replacements node used, tree.rebuild replacements = .ok (node, used) →
    node.Intact registry names

theorem rebuildItems_forall₂ {replacements : Replacements} {items : List PartialTree}
    {nodes : List Logic} {used : Nat}
    (hrebuild : rebuildItems replacements items = .ok (nodes, used)) :
    List.Forall₂ (fun item node => ∃ used, item.rebuild replacements = .ok (node, used))
      items nodes := by
  induction items generalizing nodes used with
  | nil =>
      cases hrebuild
      exact .nil
  | cons item items ih =>
      unfold rebuildItems at hrebuild
      cases hitem : item.rebuild replacements with
      | error failure => simp [hitem] at hrebuild
      | ok rebuilt =>
          cases hitems : rebuildItems replacements items with
          | error failure => simp [hitem, hitems, Except.map] at hrebuild
          | ok rest =>
              rw [hitem, hitems] at hrebuild
              cases hrebuild
              exact .cons ⟨rebuilt.2, hitem⟩ (ih hitems)

theorem exists_of_rebuild_sequence {replacements : Replacements} {items : List PartialTree}
    {node : Logic} {used : Nat}
    (hrebuild : (PartialTree.sequence items).rebuild replacements = .ok (node, used)) :
    ∃ nodes, node = .sequence nodes ∧
      List.Forall₂ (fun item node => ∃ used, item.rebuild replacements = .ok (node, used))
        items nodes := by
  unfold rebuild at hrebuild
  cases hitems : rebuildItems replacements items with
  | error failure => simp [hitems, Except.map] at hrebuild
  | ok rebuilt =>
      rw [hitems] at hrebuild
      cases hrebuild
      exact ⟨rebuilt.1, rfl, rebuildItems_forall₂ hitems⟩

theorem exists_of_rebuild_call {replacements : Replacements} {operator : String} {input : Json}
    {args : PartialTree} {node : Logic} {used : Nat}
    (hrebuild : (PartialTree.call operator input args).rebuild replacements = .ok (node, used)) :
    ∃ rebuilt, node = .operation operator rebuilt ∧
      ∃ used, args.rebuild replacements = .ok (rebuilt, used) := by
  unfold rebuild at hrebuild
  cases hargs : args.rebuild replacements with
  | error failure => simp [hargs, Except.map] at hrebuild
  | ok rebuilt =>
      rw [hargs] at hrebuild
      cases hrebuild
      exact ⟨rebuilt.1, rfl, rebuilt.2, rfl⟩

theorem mends_done (value : Json) : (done value).Mends registry names := by
  intro replacements node used hrebuild
  unfold rebuild at hrebuild
  cases hrebuild
  exact .literal value

theorem mends_point (p : SuspensionPoint) : (point p).Mends registry names := by
  intro replacements node used hrebuild
  unfold rebuild at hrebuild
  split at hrebuild
  · cases hrebuild
    exact .literal _
  · cases hrebuild

theorem mends_sequence {items : List PartialTree}
    (hitems : ∀ item ∈ items, item.Mends registry names) :
    (sequence items).Mends registry names := by
  intro replacements node used hrebuild
  obtain ⟨nodes, rfl, hnodes⟩ := exists_of_rebuild_sequence hrebuild
  apply Logic.Intact.sequence
  clear hrebuild
  induction hnodes with
  | nil => simp
  | cons hfirst _ ih =>
      obtain ⟨_, hfirst⟩ := hfirst
      intro node hnode
      rcases List.mem_cons.mp hnode with rfl | hrest
      · exact hitems _ List.mem_cons_self replacements node _ hfirst
      · exact ih (fun item hitem => hitems item (List.mem_cons_of_mem _ hitem)) node hrest

theorem Mends.toLogic {suspension : Suspension} {replacements : Replacements} {node : Logic}
    (hmends : suspension.root.Mends registry names)
    (hnode : suspension.toLogic replacements = .ok node) : node.Intact registry names := by
  unfold Suspension.toLogic at hnode
  split at hnode
  next => cases hnode
  next rebuilt used hrebuild =>
    split at hnode
    · cases hnode
      exact hmends replacements _ used hrebuild
    · cases hnode

end PartialTree

theorem PartialTree.eq_of_rebuild_ofLogic {replacements : Replacements} {node node' : Logic}
    {used : Nat} (hplain : node.Plain)
    (hrebuild : (ofLogic node).rebuild replacements = .ok (node', used)) : node' = node := by
  unfold ofLogic rebuild at hrebuild
  cases hrebuild
  exact hplain

theorem PartialTree.eq_of_rebuild_ofLogics {replacements : Replacements}
    {nodes rebuilt : List Logic}
    (hplain : ∀ node ∈ nodes, node.Plain)
    (hrebuilt : List.Forall₂
      (fun item node => ∃ used, item.rebuild replacements = .ok (node, used))
      (nodes.map ofLogic) rebuilt) : rebuilt = nodes := by
  rw [List.forall₂_map_left_iff] at hrebuilt
  induction hrebuilt with
  | nil => rfl
  | @cons node node' nodes rebuilt hfirst _ ih =>
      obtain ⟨_, hfirst⟩ := hfirst
      rw [eq_of_rebuild_ofLogic (hplain node List.mem_cons_self) hfirst,
        ih fun other hother => hplain other (List.mem_cons_of_mem node hother)]

namespace Suspension

variable {name : String} {s : Suspension} {input : Json}

/-- The first of the remaining arguments is suspended. -/
theorem ofArguments_mends {unreached : List Logic} (hname : names name)
    (hmends : s.root.Mends registry names) (hplain : ∀ node ∈ unreached, node.Plain)
    (hintact : ∀ node ∈ unreached, node.Intact registry names) :
    (ofArguments name input (s.root :: unreached.map .ofLogic)).root.Mends registry names := by
  intro replacements node used hrebuild
  obtain ⟨args, rfl, _, hargs⟩ := PartialTree.exists_of_rebuild_call hrebuild
  obtain ⟨nodes, rfl, hnodes⟩ := PartialTree.exists_of_rebuild_sequence hargs
  cases hnodes with
  | @cons _ first _ rest hfirst hrest =>
      obtain ⟨_, hfirst⟩ := hfirst
      obtain rfl := PartialTree.eq_of_rebuild_ofLogics hplain hrest
      refine .operation hname (.sequence ?_) fun _ _ _ => .inl hplain
      intro node hnode
      rcases List.mem_cons.mp hnode with rfl | hmem
      · exact hmends replacements node _ hfirst
      · exact hintact node hmem

/-- The start value of a fold is suspended. -/
theorem initial_mends {items : List Json} {body : Logic} (hname : names "reduce")
    (hmends : s.root.Mends registry names) (hplain : body.Plain)
    (hintact : body.Intact registry names) :
    (ofArguments "reduce" input
      [.done (.array items), .ofLogic body, s.root]).root.Mends registry names := by
  intro replacements node used hrebuild
  obtain ⟨args, rfl, _, hargs⟩ := PartialTree.exists_of_rebuild_call hrebuild
  obtain ⟨nodes, rfl, hnodes⟩ := PartialTree.exists_of_rebuild_sequence hargs
  rcases hnodes with _ | ⟨⟨_, hitems⟩, _ | ⟨⟨_, hbody⟩, _ | ⟨⟨_, hinitial⟩, _ | _⟩⟩⟩
  unfold PartialTree.rebuild at hitems
  cases hitems
  obtain rfl := PartialTree.eq_of_rebuild_ofLogic hplain hbody
  refine .operation hname (.sequence ?_) fun _ _ _ => .inr ⟨rfl, ⟨_, rfl⟩, hplain⟩
  simp only [List.forall_mem_cons, List.not_mem_nil, false_implies, implies_true, and_true]
  exact ⟨.literal _, hintact, hmends replacements _ _ hinitial⟩

theorem withinCall_mends {operator : Operator} (hname : names name)
    (hlookup : registry.lookup name = some operator) (htraverse : operator.traverse = true)
    (hmends : s.root.Mends registry names) :
    (s.withinCall name input).root.Mends registry names := by
  intro replacements node used hrebuild
  obtain ⟨args, rfl, _, hargs⟩ := PartialTree.exists_of_rebuild_call hrebuild
  refine .operation hname (hmends replacements args _ hargs) fun other hother hraw => ?_
  rw [hlookup] at hother
  cases hother
  cases hraw.symm.trans htraverse

end Suspension
end DecisionLogic
