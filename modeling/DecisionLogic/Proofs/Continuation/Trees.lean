import DecisionLogic.Proofs.Continuation.Results
import DecisionLogic.Proofs.Congruence.Obedience
import DecisionLogic.Proofs.Resumption.Bodies
import Mathlib.Algebra.Group.Nat.Even

/-!
# Trees that continue an evaluation

A suspension keeps arguments that were not reached as values and reads them again when it is
answered.  A tree is read back exactly if it is inert: no literal in it holds an array or an
operation.  `Continues` says what a tree with the answers filled in has to do with the tree whose
evaluation was suspended, given how the arguments that were not reached are kept.
-/

namespace DecisionLogic

/-! ## Inert trees -/

/-- Read as logic, the value is a literal. -/
def Json.isInert : Json → Bool
  | .array _ => false
  | .object [_] => false
  | _ => true

namespace Logic

mutual

/-- Every literal in the tree reads as a literal. -/
def isInert : Logic → Bool
  | .literal value => value.isInert
  | .sequence items => allInert items
  | .operation _ args => args.isInert

def allInert : List Logic → Bool
  | [] => true
  | item :: items => item.isInert && allInert items

end

theorem plain_literal_iff (value : Json) : (literal value).Plain ↔ value.isInert = true := by
  unfold Plain reparse toJson
  cases value with
  | array items => simp [parse, Json.isInert]
  | object fields =>
      match fields with
      | [] => simp [parse, Json.isInert]
      | [_] => simp [parse, Json.isInert]
      | _ :: _ :: _ => simp [parse, Json.isInert]
  | _ => simp [parse, Json.isInert]

mutual

theorem plain_iff_isInert : ∀ node : Logic, node.Plain ↔ node.isInert = true
  | .literal value => plain_literal_iff value
  | .sequence items => by
      have hitems := parseItems_eq_iff_allInert items
      simp only [Plain, reparse, toJson, parse, sequence.injEq, hitems, isInert]
  | .operation name args => by
      have hargs := plain_iff_isInert args
      simp only [Plain, reparse] at hargs
      simp only [Plain, reparse, toJson, parse, operation.injEq, true_and, hargs, isInert]

theorem parseItems_eq_iff_allInert : ∀ items : List Logic,
    parseItems (itemsToJson items) = items ↔ allInert items = true
  | [] => by simp [itemsToJson, parseItems, allInert]
  | item :: items => by
      have hitem := plain_iff_isInert item
      have hitems := parseItems_eq_iff_allInert items
      simp only [Plain, reparse] at hitem
      simp only [itemsToJson, parseItems, List.cons.injEq, hitem, hitems, allInert,
        Bool.and_eq_true]

end

theorem allInert_append (items others : List Logic) :
    allInert (items ++ others) = (allInert items && allInert others) := by
  induction items with
  | nil => rfl
  | cons item items ih => rw [List.cons_append, allInert, allInert, ih, Bool.and_assoc]

theorem allInert_arguments {args : Logic} (hinert : args.isInert = true) :
    allInert args.arguments = true := by
  cases args with
  | sequence items => exact hinert
  | _ => simpa [arguments, allInert] using hinert

end Logic

/-! ## Answered trees -/

namespace PartialTree

/-- The tree that is left when each point has its value. -/
def Becomes (tree : PartialTree) (node : Logic) : Prop :=
  ∃ replacements used, tree.rebuild replacements = .ok (node, used)

variable {node : Logic}

theorem Becomes.of_done {value : Json} (hbecomes : (done value).Becomes node) :
    node = .literal value := by
  obtain ⟨replacements, used, hrebuild⟩ := hbecomes
  rw [rebuild] at hrebuild
  cases hrebuild
  rfl

theorem Becomes.of_ofLogic {logic : Logic} (hbecomes : (ofLogic logic).Becomes node) :
    node = logic.reparse := by
  obtain ⟨replacements, used, hrebuild⟩ := hbecomes
  rw [ofLogic, rebuild] at hrebuild
  cases hrebuild
  rfl

theorem Becomes.of_point {p : SuspensionPoint} (hbecomes : (point p).Becomes node) :
    ∃ value, node = .literal value := by
  obtain ⟨replacements, used, hrebuild⟩ := hbecomes
  rw [rebuild] at hrebuild
  split at hrebuild
  next value _ =>
    cases hrebuild
    exact ⟨value, rfl⟩
  next => cases hrebuild

theorem Becomes.of_call {name : String} {input : Json} {args : PartialTree}
    (hbecomes : (call name input args).Becomes node) :
    ∃ args', node = .operation name args' ∧ args.Becomes args' := by
  obtain ⟨replacements, used, hrebuild⟩ := hbecomes
  rw [rebuild] at hrebuild
  cases hargs : args.rebuild replacements with
  | error failure =>
      rw [hargs] at hrebuild
      cases hrebuild
  | ok rebuilt =>
      obtain ⟨args', answered⟩ := rebuilt
      rw [hargs] at hrebuild
      cases hrebuild
      exact ⟨args', rfl, replacements, _, hargs⟩

theorem becomes_of_rebuildItems {replacements : Replacements} {items : List PartialTree}
    {nodes : List Logic} {used : Nat} (hrebuild : rebuildItems replacements items = .ok (nodes, used)) :
    List.Forall₂ Becomes items nodes := by
  induction items generalizing nodes used with
  | nil =>
      cases hrebuild
      exact .nil
  | cons item items ih =>
      rw [rebuildItems] at hrebuild
      split at hrebuild
      next => cases hrebuild
      next first answered hfirst =>
        cases hrest : rebuildItems replacements items with
        | error failure =>
            rw [hrest] at hrebuild
            cases hrebuild
        | ok rebuilt =>
            rw [hrest] at hrebuild
            cases hrebuild
            exact .cons ⟨replacements, answered, hfirst⟩ (ih hrest)

theorem Becomes.of_sequence {items : List PartialTree} (hbecomes : (sequence items).Becomes node) :
    ∃ nodes, node = .sequence nodes ∧ List.Forall₂ Becomes items nodes := by
  obtain ⟨replacements, used, hrebuild⟩ := hbecomes
  rw [rebuild] at hrebuild
  cases hitems : rebuildItems replacements items with
  | error failure =>
      rw [hitems] at hrebuild
      cases hrebuild
  | ok rebuilt =>
      rw [hitems] at hrebuild
      cases hrebuild
      exact ⟨_, rfl, becomes_of_rebuildItems hitems⟩

theorem becomes_map_ofLogic {logics nodes : List Logic}
    (hbecome : List.Forall₂ Becomes (logics.map ofLogic) nodes) : nodes = logics.map .reparse := by
  rw [List.forall₂_map_left_iff] at hbecome
  induction hbecome with
  | nil => rfl
  | cons hfirst _ ih => rw [List.map_cons, hfirst.of_ofLogic, ih]

end PartialTree

theorem Suspension.becomes_of_toLogic {suspension : Suspension} {replacements : Replacements}
    {tree : Logic} (hlogic : suspension.toLogic replacements = .ok tree) :
    suspension.root.Becomes tree := by
  unfold toLogic at hlogic
  split at hlogic
  next => cases hlogic
  next node used hrebuild =>
    split at hlogic
    · cases hlogic
      exact ⟨replacements, used, hrebuild⟩
    · cases hlogic

/-- A suspended argument with the arguments behind it. -/
theorem Suspension.becomes_ofArguments {name : String} {input : Json} {first : PartialTree}
    {unreached : List Logic} {tree : Logic}
    (hbecomes :
      (ofArguments name input (first :: unreached.map PartialTree.ofLogic)).root.Becomes tree) :
    ∃ node, first.Becomes node ∧
      tree = .operation name (.sequence (node :: unreached.map .reparse)) := by
  obtain ⟨args, rfl, hargs⟩ := hbecomes.of_call
  obtain ⟨nodes, rfl, hnodes⟩ := hargs.of_sequence
  cases hnodes with
  | cons hfirst hrest => exact ⟨_, hfirst, by rw [PartialTree.becomes_map_ofLogic hrest]⟩

/-! ## Continuation -/

/-- Called by the engine with these arguments, the operator may return the output. -/
def Engine.MayReturn (engine : Engine) (operator : Operator) (args : Logic) (output : Output) :
    Prop :=
  ∃ levels input scope, operator.Receives args input ∧
    (operator.body.run input scope (engine.handle (engine.evaluate levels))).ComesTo output

section Continues

variable (engine : Engine) (keeps : Logic → Logic → Prop)

mutual

/-- The second tree continues a suspended evaluation of the first one.  What was not reached is
related by `keeps`, argument for argument and in its order. -/
inductive Continues : Logic → Logic → Prop
  | sequence {items items' : List Logic} (hitems : ContinuesItems items items') :
      Continues (.sequence items) (.sequence items')
  | arguments {name : String} {operator : Operator} {args args' : Logic}
      (hlookup : engine.registry.lookup name = some operator)
      (htraverse : operator.traverse = true) (hargs : Continues args args') :
      Continues (.operation name args) (.operation name args')
  /-- The operands before the suspended one have decided nothing. -/
  | operand {name : String} {args node tree : Logic} {before after after' : List Logic}
      (hname : name = "and" ∨ name = "or") (hargs : args.arguments = before ++ node :: after)
      (hnode : Continues node tree) (hafter : List.Forall₂ keeps after after') :
      Continues (.operation name args) (.operation name (.sequence (tree :: after')))
  /-- The conditions before the suspended one do not hold. -/
  | condition {name : String} {args node tree : Logic} {before after after' : List Logic}
      (hname : name = "if" ∨ name = "?:") (hargs : args.arguments = before ++ node :: after)
      (heven : Even before.length) (hafter : after ≠ []) (hnode : Continues node tree)
      (hkept : List.Forall₂ keeps after after') :
      Continues (.operation name args) (.operation name (.sequence (tree :: after')))
  /-- The conditional has decided for the suspended argument. -/
  | branch {name : String} {args node tree : Logic} {before after : List Logic}
      (hname : name = "if" ∨ name = "?:") (hargs : args.arguments = before ++ node :: after)
      (hresult : Even before.length → after = []) (hnode : Continues node tree) :
      Continues (.operation name args) tree
  | source {name : String} {args node tree : Logic} {after after' : List Logic}
      (hname : name ∈ Standard.iterationNames) (hargs : args.arguments = node :: after)
      (hnode : Continues node tree) (hafter : List.Forall₂ keeps after after') :
      Continues (.operation name args) (.operation name (.sequence (tree :: after')))
  | initial {args source body body' node tree : Logic} {rest : List Logic} (items : List Json)
      (hargs : args.arguments = source :: body :: node :: rest) (hbody : keeps body body')
      (hnode : Continues node tree) :
      Continues (.operation "reduce" args)
        (.operation "reduce" (.sequence [.literal (.array items), body', tree]))
  /-- The value of the point that stands for the whole operator when a body is suspended. -/
  | body {name : String} (hname : name ∈ Standard.iterationNames) (args : Logic) (value : Json) :
      Continues (.operation name args) (.literal value)
  /-- The value that an operator which is not a standard one has yielded for. -/
  | answered {name : String} {operator : Operator} {args : Logic} {reason : Json}
      (hlookup : engine.registry.lookup name = some operator)
      (hcustom : Standard.registry.lookup name ≠ some operator)
      (hyields : engine.MayReturn operator args (.yield reason)) (value : Json) :
      Continues (.operation name args) (.literal value)
  /-- A suspension that an operator which is not a standard one has returned by itself. -/
  | returned {name : String} {operator : Operator} {args tree : Logic} {suspension : Suspension}
      (hlookup : engine.registry.lookup name = some operator)
      (hcustom : Standard.registry.lookup name ≠ some operator)
      (hreturns : engine.MayReturn operator args (.evaluation (.suspended suspension)))
      (htree : suspension.root.Becomes tree) : Continues (.operation name args) tree

/-- Items that were finished, and items that continue. -/
inductive ContinuesItems : List Logic → List Logic → Prop
  | nil : ContinuesItems [] []
  | finished {items items' : List Logic} (item : Logic) (value : Json)
      (hrest : ContinuesItems items items') :
      ContinuesItems (item :: items) (.literal value :: items')
  | continued {item tree : Logic} {items items' : List Logic} (hitem : Continues item tree)
      (hrest : ContinuesItems items items') : ContinuesItems (item :: items) (tree :: items')

end

end Continues

/-- An inert argument that is kept in the one way is kept in the other way too. -/
def Logic.InertKeep (keeps keeps' : Logic → Logic → Prop) : Prop :=
  ∀ argument kept, argument.isInert = true → keeps argument kept → keeps' argument kept

variable {engine : Engine} {keeps keeps' : Logic → Logic → Prop}

theorem Logic.InertKeep.arguments (hkeeps : InertKeep keeps keeps') {args kept : List Logic}
    (hkept : List.Forall₂ keeps args kept)
    (hinert : allInert args = true) : List.Forall₂ keeps' args kept := by
  induction hkept with
  | nil => exact .nil
  | cons hfirst _ ih =>
      simp only [allInert, Bool.and_eq_true] at hinert
      exact .cons (hkeeps _ _ hinert.1 hfirst) (ih hinert.2)

mutual

/-- In an inert tree it is enough to know how inert arguments are kept. -/
theorem Continues.of_isInert (hkeeps : Logic.InertKeep keeps keeps') : ∀ {node tree : Logic},
    Continues engine keeps node tree → node.isInert = true → Continues engine keeps' node tree
  | _, _, .sequence hitems, hinert => .sequence (hitems.of_isInert hkeeps hinert)
  | _, _, .arguments hlookup htraverse hargs, hinert =>
      .arguments hlookup htraverse (hargs.of_isInert hkeeps hinert)
  | .operation _ args, _, .operand hname hargs hnode hafter, hinert => by
      have hall : Logic.allInert args.arguments = true := Logic.allInert_arguments hinert
      simp only [hargs, Logic.allInert_append, Logic.allInert, Bool.and_eq_true] at hall
      obtain ⟨-, hnodeInert, hafterInert⟩ := hall
      exact .operand hname hargs (hnode.of_isInert hkeeps hnodeInert)
        (hkeeps.arguments hafter hafterInert)
  | .operation _ args, _, .condition hname hargs heven hafter hnode hkept, hinert => by
      have hall : Logic.allInert args.arguments = true := Logic.allInert_arguments hinert
      simp only [hargs, Logic.allInert_append, Logic.allInert, Bool.and_eq_true] at hall
      obtain ⟨-, hnodeInert, hafterInert⟩ := hall
      exact .condition hname hargs heven hafter (hnode.of_isInert hkeeps hnodeInert)
        (hkeeps.arguments hkept hafterInert)
  | .operation _ args, _, .branch hname hargs hresult hnode, hinert => by
      have hall : Logic.allInert args.arguments = true := Logic.allInert_arguments hinert
      simp only [hargs, Logic.allInert_append, Logic.allInert, Bool.and_eq_true] at hall
      obtain ⟨-, hnodeInert, -⟩ := hall
      exact .branch hname hargs hresult (hnode.of_isInert hkeeps hnodeInert)
  | .operation _ args, _, .source hname hargs hnode hafter, hinert => by
      have hall : Logic.allInert args.arguments = true := Logic.allInert_arguments hinert
      simp only [hargs, Logic.allInert, Bool.and_eq_true] at hall
      obtain ⟨hnodeInert, hafterInert⟩ := hall
      exact .source hname hargs (hnode.of_isInert hkeeps hnodeInert)
        (hkeeps.arguments hafter hafterInert)
  | .operation _ args, _, .initial items hargs hbody hnode, hinert => by
      have hall : Logic.allInert args.arguments = true := Logic.allInert_arguments hinert
      simp only [hargs, Logic.allInert, Bool.and_eq_true] at hall
      obtain ⟨-, hbodyInert, hnodeInert, -⟩ := hall
      exact .initial items hargs (hkeeps _ _ hbodyInert hbody) (hnode.of_isInert hkeeps hnodeInert)
  | _, _, .body hname args value, _ => .body hname args value
  | _, _, .answered hlookup hcustom hyields value, _ => .answered hlookup hcustom hyields value
  | _, _, .returned hlookup hcustom hreturns htree, _ => .returned hlookup hcustom hreturns htree

theorem ContinuesItems.of_isInert (hkeeps : Logic.InertKeep keeps keeps') :
    ∀ {items items' : List Logic}, ContinuesItems engine keeps items items' →
      Logic.allInert items = true → ContinuesItems engine keeps' items items'
  | _, _, .nil, _ => .nil
  | _, _, .finished item value hrest, hinert => by
      simp only [Logic.allInert, Bool.and_eq_true] at hinert
      exact .finished item value (hrest.of_isInert hkeeps hinert.2)
  | _, _, .continued hitem hrest, hinert => by
      simp only [Logic.allInert, Bool.and_eq_true] at hinert
      exact .continued (hitem.of_isInert hkeeps hinert.1) (hrest.of_isInert hkeeps hinert.2)

end

end DecisionLogic
