import DecisionLogic.Proofs.Congruence.Law
import DecisionLogic.Proofs.Program.Compilation

/-!
# The shape of values

A literal is its own value, and the value of a sequence is an array of those of its items.  So what
an operator receives is known as far as its argument tree is made of these, however long the
evaluation of the rest takes.
-/

namespace DecisionLogic

theorem Law.free_supplies : Law.free.Supplies :=
  fun _ => ⟨0, trivial⟩

def Congruence.free : Congruence :=
  Law.free.congruence Law.free_supplies

section Free

variable {α β : Type}

theorem Moment.keeps_free (m : Moment α) {condition : Multiset Nat → Except Failure α → Prop}
    (hall : ∀ drawn result, condition drawn result) (w : World) : m.Keeps .free condition w := by
  have hstep (world : World) : Law.free.Step w world 0 := trivial
  induction m generalizing condition w with
  | finished world result => exact .finished (hstep world) (hall _ _)
  | waiting world ready rest ih =>
      refine .waiting (hstep world) fun later => ih later (fun _ => hall _) later fun _ => trivial

/-- What comes after a computation matters for the values it can end with only. -/
theorem Moment.Keeps.andThen_congr {law : Law}
    {condition : Multiset Nat → Except Failure α → Prop} {m : Moment α} {w : World}
    {next next' : α → Computation β} (hkeeps : m.Keeps law condition w)
    (hnext : ∀ drawn x, condition drawn (.ok x) → next x = next' x) :
    m.andThen next = m.andThen next' := by
  induction hkeeps with
  | @finished _ _ _ drawn result _ hresult =>
      cases result with
      | ok x => simp only [Moment.andThen, hnext drawn x hresult]
      | error failure => rfl
  | @waiting _ _ _ drawn _ _ _ _ ih =>
      have hrest := funext fun later => ih later fun more x => hnext (drawn + more) x
      simp only [Moment.andThen, hrest]

theorem Computation.Keeps.bind_congr {law : Law}
    {condition : Multiset Nat → Except Failure α → Prop} {c : Computation α}
    {next next' : α → Computation β} (hkeeps : c.Keeps law condition)
    (hnext : ∀ drawn x, condition drawn (.ok x) → next x = next' x) :
    c >>= next = c >>= next' :=
  funext fun w => (hkeeps w).andThen_congr hnext

end Free

inductive Logic.Shapes : Logic → Json → Prop
  | literal (value : Json) : Shapes (.literal value) value
  | sequence {items : List Logic} {values : List Json} (hitems : List.Forall₂ Shapes items values) :
      Shapes (.sequence items) (.array values)
  | operation (name : String) (args : Logic) (value : Json) : Shapes (.operation name args) value

/-- If an evaluation of the node is done, its value has the shape of the node. -/
def Logic.Shaped (node : Logic) (evaluation : Evaluation) : Prop :=
  ∀ value, evaluation = .done value → node.Shapes value

/-- Values that the node is evaluated to have its shape. -/
def Logic.Gives (node : Logic) (computation : Computation Evaluation) : Prop :=
  Congruence.free.Rel (fun _ evaluation (_ : Unit) => node.Shaped evaluation) computation
    (Pure.pure ())

variable {engine : Engine} {scope : Scope}

namespace Logic

open Congruence

theorem gives_operation (name : String) (args : Logic) (computation : Computation Evaluation) :
    (operation name args).Gives computation := by
  intro w
  refine (computation w).keeps_free (fun drawn result => ?_) w
  cases result with
  | ok evaluation => exact .ok () fun value _ => .operation name args value
  | error failure => exact .error trivial

theorem gives_checked {node : Logic} {computation : Computation Evaluation}
    (hgives : node.Gives computation) :
    node.Gives (Computation.checkCancelled >>= fun _ => computation) :=
  free.bind free.checkCancelled fun _ _ (_ : Unit) _ => hgives

theorem gives_literal (value : Json) : (literal value).Gives (Pure.pure (.done value)) := by
  refine free.pure fun found hfound => ?_
  cases hfound
  exact .literal value

theorem gives_joinAll {items : List Logic} {computations : List (Computation Evaluation)}
    (hitems : List.Forall₂ Gives items computations) :
    (Computation.joinAll computations).Keeps .free
      (Law.free.Allows fun _ results (_ : Unit) => List.Forall₂ Shaped items results) := by
  induction hitems with
  | nil => exact fun w => .finished (Law.free.refl w) (.ok () .nil)
  | cons hfirst _ ih =>
      intro w
      refine (hfirst w).beside ih ?_ ?_ ?_
      · intro drawn more x xs hx hxs
        cases hx with
        | ok _ hshaped =>
            cases hxs with
            | ok _ hrest => exact .ok () (.cons hshaped hrest)
      · exact fun _ _ _ _ => .error trivial
      · exact fun _ _ _ _ => .error trivial

theorem shaped_join {items : List Logic} {results : List Evaluation}
    (hresults : List.Forall₂ Shaped items results) :
    (sequence items).Shaped (.join results) := by
  intro value hvalue
  unfold Evaluation.join at hvalue
  split at hvalue
  next => cases hvalue
  next hdone =>
    cases hvalue
    refine .sequence ?_
    induction hresults with
    | nil => exact .nil
    | @cons item result items results hfirst _ ih =>
        simp only [List.any_cons, Bool.or_eq_true, not_or] at hdone
        cases result with
        | done value => exact .cons (hfirst value rfl) (ih hdone.2)
        | suspended suspension => exact absurd rfl hdone.1

theorem gives_sequence {items : List Logic} {computations : List (Computation Evaluation)}
    (hitems : List.Forall₂ Gives items computations) :
    (sequence items).Gives
      (do return Evaluation.join (← Computation.joinAll computations)) :=
  (gives_joinAll hitems).bind fun _ _ _ hresults w =>
    .finished (Law.free.refl w) (.ok () (shaped_join hresults))

/-- No matter what the operators do. -/
theorem gives_evaluate (levels : Nat) (node : Logic) (scope : Scope) :
    node.Gives (engine.evaluate levels node scope) := by
  induction levels generalizing node with
  | zero =>
      unfold Engine.evaluate
      exact gives_checked (free.fail (g := .cancelled) trivial)
  | succ levels ih =>
      cases node with
      | literal value =>
          unfold Engine.evaluate
          exact gives_checked (gives_literal value)
      | sequence items =>
          unfold Engine.evaluate
          refine gives_checked (gives_sequence ?_)
          rw [List.forall₂_map_right_iff, List.forall₂_same]
          exact fun item _ => ih item
      | operation name args => exact gives_operation name args _

end Logic

/-! ## Compiled trees -/

namespace Compiled

open Logic

mutual

/-- A node that compiles to a value has its shape. -/
theorem Translates.shapes : ∀ {node : Logic} {value : Json},
    Translates engine node (.literal value) → node.Shapes value
  | _, _, .literal value => .literal value
  | _, _, .folded hitems hvalues => .sequence (TranslatesItems.shapes hitems hvalues)
  | _, _, .inlined _ _ _ _ _ _ => .operation _ _ _

theorem TranslatesItems.shapes : ∀ {items : List Logic} {compiled : List Compiled}
    {values : List Json}, TranslatesItems engine items compiled →
      literals? compiled = some values → List.Forall₂ Shapes items values
  | _, _, _, .nil, hvalues => by
      cases hvalues
      exact .nil
  | _, compiled :: rest, _, .cons hitem hitems, hvalues => by
      unfold literals? at hvalues
      split at hvalues
      next value values hvalue hrest =>
        cases hvalues
        cases compiled with
        | literal found =>
            obtain rfl := Option.some.inj hvalue
            exact .cons hitem.shapes (TranslatesItems.shapes hitems hrest)
        | sequence | call | rawCall => cases hvalue
      next => cases hvalues

end

mutual

theorem Translates.gives : ∀ {node : Logic} {compiled : Compiled},
    Translates engine node compiled → node.Gives (execute engine scope compiled)
  | _, _, .literal value => by
      unfold execute
      exact gives_checked (gives_literal value)
  | _, _, .folded hitems hvalues => by
      unfold execute
      refine gives_checked (Congruence.free.pure fun found hfound => ?_)
      cases hfound
      exact .sequence (TranslatesItems.shapes hitems hvalues)
  | _, _, .sequence hitems => by
      unfold execute
      exact gives_checked (gives_sequence (TranslatesItems.gives hitems))
  | _, _, .call _ _ _ => gives_operation _ _ _
  | _, _, .inlined _ _ _ _ _ _ => gives_operation _ _ _
  | _, _, .rawCall _ _ => gives_operation _ _ _

theorem TranslatesItems.gives : ∀ {items : List Logic} {compiled : List Compiled},
    TranslatesItems engine items compiled →
      List.Forall₂ Gives items (executeItems engine scope compiled)
  | _, _, .nil => by
      unfold executeItems
      exact .nil
  | _, _, .cons hitem hitems => by
      unfold executeItems
      exact .cons hitem.gives (TranslatesItems.gives hitems)

end

end Compiled
end DecisionLogic
