import DecisionLogic.Proofs.Congruence.Basic
import DecisionLogic.Proofs.Program.Compilation

/-!
# Evaluation and execution under a congruence

`Congruence.Compatible` says, of the nodes that come up while two engines evaluate, how the
suspensions of the parts of a node become one of the node, and that the operators of both engines
respect the congruence.  Then evaluating a node and executing what it compiles to respect it too.
-/

namespace DecisionLogic.Congruence

/-- The nodes that come up when a number of levels is left, and the scopes they are evaluated in. -/
abbrev Setting : Type :=
  Nat → Logic → Scope → Scope → Prop

/-- What is known with few levels left is known with more. -/
def Setting.Rising (known : Setting) : Prop :=
  ∀ levels more node scope scope', levels ≤ more → known levels node scope scope' →
    known more node scope scope'

/-- The nodes that come up with `levels` levels left are evaluated alike. -/
def Below (K : Congruence) (known : Setting) (T : Logic → Linkage) (levels : Nat)
    (evaluate evaluate' : Logic → Scope → Computation Evaluation) : Prop :=
  ∀ node scope scope', known levels node scope scope' →
    K.Rel (Evaluation.Linked (T node)) (evaluate node scope) (evaluate' node scope')

/-- How two engines carry out an operation with what they know by its name. -/
inductive Operation (K : Congruence) (engine engine' : Engine) (known : Setting)
    (T : Logic → Linkage) (levels : Nat) (name : String) (args : Logic) (scope scope' : Scope) :
    Option Operator → Option Operator → Prop
  | unknown (hfails : K.Fails (.unknownOperator name) (.unknownOperator name)) :
      Operation K engine engine' known T levels name args scope scope' none none
  | traversing {operator operator' : Operator} (htraverse : operator.traverse = true)
      (htraverse' : operator'.traverse = true) (hargs : known levels args scope scope')
      (hwithin : ∀ drawn s t, T args drawn s t →
        T (.operation name args) drawn (s.withinCall name args.toJson)
          (t.withinCall name args.toJson))
      (hcall : ∀ value evaluate evaluate', K.Below known T levels evaluate evaluate' →
        K.Rel (Evaluation.Linked (T (.operation name args)))
          (callOperator name operator (.evaluated value) scope (engine.handle evaluate))
          (callOperator name operator' (.evaluated value) scope' (engine'.handle evaluate'))) :
      Operation K engine engine' known T levels name args scope scope' (some operator)
        (some operator')
  | raw {operator operator' : Operator} (htraverse : operator.traverse = false)
      (htraverse' : operator'.traverse = false)
      (hcall : ∀ evaluate evaluate', K.Below known T levels evaluate evaluate' →
        K.Rel (Evaluation.Linked (T (.operation name args)))
          (callOperator name operator (.raw args) scope (engine.handle evaluate))
          (callOperator name operator' (.raw args) scope' (engine'.handle evaluate'))) :
      Operation K engine engine' known T levels name args scope scope' (some operator)
        (some operator')

structure Compatible (K : Congruence) (engine engine' : Engine) (known : Setting)
    (T : Logic → Linkage) : Prop where
  lasting : ∀ node, (T node).Lasting
  tooDeep : ∀ node scope scope', known 0 node scope scope' →
    K.Fails (.nestingTooDeep engine.options.maxDepth) (.nestingTooDeep engine'.options.maxDepth)
  items : ∀ levels items scope scope', known (levels + 1) (.sequence items) scope scope' →
    ∀ item ∈ items, known levels item scope scope'
  joins : ∀ levels items scope scope', known (levels + 1) (.sequence items) scope scope' →
    Evaluation.Joins (fun drawn s t => ∃ item ∈ items, T item drawn s t) (T (.sequence items))
  operation : ∀ levels name args scope scope',
    known (levels + 1) (.operation name args) scope scope' →
      K.Operation engine engine' known T levels name args scope scope'
        (engine.registry.lookup name) (engine'.registry.lookup name)

variable {K : Congruence} {engine engine' : Engine} {known : Setting} {T : Logic → Linkage}
  {levels : Nat} {scope scope' : Scope}

namespace Compatible

theorem sequence_rel (hcompatible : K.Compatible engine engine' known T) {items : List Logic}
    (hknown : known (levels + 1) (.sequence items) scope scope')
    {cs ds : List (Computation Evaluation)}
    (hparts : List.Forall₂
      (K.Rel (Evaluation.Linked fun drawn s t => ∃ item ∈ items, T item drawn s t)) cs ds) :
    K.Rel (Evaluation.Linked (T (.sequence items)))
      (do return Evaluation.join (← Computation.joinAll cs))
      (do return Evaluation.join (← Computation.joinAll ds)) := by
  refine K.bind (K.joinAll hparts) fun drawn results results' hresults => pureAfter ?_
  exact Evaluation.linked_join (hcompatible.joins levels items scope scope' hknown) hresults

/-- A call that has its arguments evaluated first. -/
theorem traversing_rel (hcompatible : K.Compatible engine engine' known T) {name : String}
    {args : Logic} {c d : Computation Evaluation} {next next' : Json → Computation Evaluation}
    (hargs : K.Rel (Evaluation.Linked (T args)) c d)
    (hwithin : ∀ drawn s t, T args drawn s t →
      T (.operation name args) drawn (s.withinCall name args.toJson)
        (t.withinCall name args.toJson))
    (hnext : ∀ value, K.Rel (Evaluation.Linked (T (.operation name args))) (next value)
      (next' value)) :
    K.Rel (Evaluation.Linked (T (.operation name args)))
      (c >>= fun evaluation =>
        match evaluation with
        | .done value => next value
        | .suspended suspension => Pure.pure (.suspended (suspension.withinCall name args.toJson)))
      (d >>= fun evaluation =>
        match evaluation with
        | .done value => next' value
        | .suspended suspension =>
            Pure.pure (.suspended (suspension.withinCall name args.toJson))) := by
  refine K.bind hargs fun drawn evaluation evaluation' hlinked => ?_
  cases hlinked with
  | done _ value => exact later (Evaluation.linked_lasting (hcompatible.lasting _)) (hnext value)
  | suspended hsuspension => exact pureAfter (.suspended (hwithin _ _ _ hsuspension))

theorem evaluate_rel (hcompatible : K.Compatible engine engine' known T) (levels : Nat) :
    K.Below known T levels (engine.evaluate levels) (engine'.evaluate levels) := by
  induction levels with
  | zero =>
      intro node scope scope' hknown
      unfold Engine.evaluate
      refine checked (Evaluation.linked_lasting (hcompatible.lasting node)) (K.fail ?_)
      exact hcompatible.tooDeep node scope scope' hknown
  | succ levels ih =>
      intro node scope scope' hknown
      unfold Engine.evaluate
      refine checked (Evaluation.linked_lasting (hcompatible.lasting node)) ?_
      cases node with
      | literal value => exact K.pure (.done 0 value)
      | sequence items =>
          apply hcompatible.sequence_rel hknown
          rw [List.forall₂_map_left_iff, List.forall₂_map_right_iff, List.forall₂_same]
          intro item hitem
          have hbelow := ih item scope scope' (hcompatible.items levels items _ _ hknown item hitem)
          exact K.mono hbelow fun _ _ _ hlinked => hlinked.mono fun _ _ _ h => ⟨item, hitem, h⟩
      | operation name args =>
          have hoperation := hcompatible.operation levels name args scope scope' hknown
          dsimp only
          generalize engine.registry.lookup name = known? at hoperation ⊢
          generalize engine'.registry.lookup name = known?' at hoperation ⊢
          cases hoperation with
          | unknown hfails => exact K.fail hfails
          | traversing htraverse htraverse' hargs hwithin hcall =>
              simp only [htraverse, htraverse', if_true]
              apply hcompatible.traversing_rel (ih args scope scope' hargs) hwithin
              exact fun value => hcall value _ _ ih
          | raw htraverse htraverse' hcall =>
              simp only [htraverse, htraverse', Bool.false_eq_true, if_false]
              exact hcall _ _ ih

/-! ## Compiled trees -/

open Compiled

theorem below_levels (hcompatible : K.Compatible engine engine known T) (hrising : known.Rising)
    (hle : levels ≤ engine.levels) :
    K.Below known T levels (engine.evaluate engine.levels) (engine.evaluate engine.levels) :=
  fun node scope scope' hknown =>
    hcompatible.evaluate_rel engine.levels node scope scope'
      (hrising _ _ node scope scope' hle hknown)

mutual

theorem execute_rel (hcompatible : K.Compatible engine engine known T) (hrising : known.Rising) :
    ∀ {levels : Nat} {node : Logic} {compiled : Compiled},
    Translates engine node compiled → levels < engine.levels →
      known (levels + 1) node scope scope' →
        K.Rel (Evaluation.Linked (T node)) (execute engine scope compiled)
          (execute engine scope' compiled)
  | _, _, _, .literal value, _, _ => by
      unfold execute
      exact checked (Evaluation.linked_lasting (hcompatible.lasting _)) (K.pure (.done 0 value))
  | _, _, _, .folded hitems hvalues, _, _ => by
      unfold execute
      exact checked (Evaluation.linked_lasting (hcompatible.lasting _)) (K.pure (.done 0 _))
  | _, _, _, .inlined hlookup htraverse hargs hinlinable hactive hcall, _, _ => by
      unfold execute
      exact checked (Evaluation.linked_lasting (hcompatible.lasting _)) (K.pure (.done 0 _))
  | levels, .sequence items, _, .sequence hitems, hlt, hknown => by
      unfold execute
      refine checked (Evaluation.linked_lasting (hcompatible.lasting _)) ?_
      apply hcompatible.sequence_rel hknown
      have hknownItems := hcompatible.items levels items _ _ hknown
      exact executeItems_rel hcompatible hrising hitems hlt hknownItems
  | levels, .operation name args, _, .call hlookup htraverse hargs, hlt, hknown => by
      unfold execute
      refine checked (Evaluation.linked_lasting (hcompatible.lasting _)) ?_
      have hoperation := hcompatible.operation levels name args _ _ hknown
      rw [hlookup] at hoperation
      cases hoperation with
      | traversing _ _ hknownArgs hwithin hcall =>
          have hpart := hrising levels (levels + 1) args _ _ (Nat.le_succ levels) hknownArgs
          apply hcompatible.traversing_rel (execute_rel hcompatible hrising hargs hlt hpart) hwithin
          exact fun value => hcall value _ _ (hcompatible.below_levels hrising (Nat.le_of_lt hlt))
      | raw hraw _ _ => cases hraw.symm.trans htraverse
  | levels, .operation name args, _, .rawCall hlookup htraverse, hlt, hknown => by
      unfold execute
      refine checked (Evaluation.linked_lasting (hcompatible.lasting _)) ?_
      have hoperation := hcompatible.operation levels name args _ _ hknown
      rw [hlookup] at hoperation
      cases hoperation with
      | traversing hraw _ _ _ _ => cases hraw.symm.trans htraverse
      | raw _ _ hcall => exact hcall _ _ (hcompatible.below_levels hrising (Nat.le_of_lt hlt))

theorem executeItems_rel (hcompatible : K.Compatible engine engine known T)
    (hrising : known.Rising) : ∀ {levels : Nat} {items : List Logic} {compiled : List Compiled},
    TranslatesItems engine items compiled → levels < engine.levels →
      (∀ item ∈ items, known levels item scope scope') →
        List.Forall₂
          (K.Rel (Evaluation.Linked fun drawn s t => ∃ item ∈ items, T item drawn s t))
          (executeItems engine scope compiled) (executeItems engine scope' compiled)
  | _, _, _, .nil, _, _ => .nil
  | levels, item :: items, _, .cons hitem hitems, hlt, hknown => by
      have hfirst := hknown item List.mem_cons_self
      have hpart := hrising levels (levels + 1) item _ _ (Nat.le_succ levels) hfirst
      have hrest := executeItems_rel hcompatible hrising hitems hlt fun other hother =>
        hknown other (List.mem_cons_of_mem item hother)
      refine .cons ?_ (hrest.imp fun c d hrel => ?_)
      · refine K.mono (execute_rel hcompatible hrising hitem hlt hpart) fun _ _ _ hlinked => ?_
        exact hlinked.mono fun _ _ _ h => ⟨item, List.mem_cons_self, h⟩
      · refine K.mono hrel fun _ _ _ hlinked => ?_
        refine hlinked.mono fun _ _ _ h => ?_
        obtain ⟨other, hother, h⟩ := h
        exact ⟨other, List.mem_cons_of_mem item hother, h⟩

end

end Compatible
end DecisionLogic.Congruence
