import DecisionLogic.Proofs.Judgement.Conclusion
import Mathlib.Data.List.Forall2

/-!
# Judged computations

A computation is judged when it concludes as a judgement says: with a failure, or with a value and
the calls that the judgement counts.  A reading says which values of the computation stand for
which ones of the judgement, given the numbers that were drawn.
-/

namespace DecisionLogic

variable {α β γ δ : Type} {patient : Prop}

/-- Which values stand for which ones, given the numbers drawn. -/
abbrev Reading (α β : Type) : Type :=
  Multiset Nat → α → β → Prop

namespace Reading

def same : Reading α α :=
  fun drawn x y => drawn = 0 ∧ x = y

def after (drawn : Multiset Nat) (R : Reading α β) : Reading α β :=
  fun more => R (drawn + more)

inductive Each (R : Reading α β) : Reading (List α) (List β)
  | nil : Each R 0 [] []
  | cons {drawn more : Multiset Nat} {x : α} {y : β} {xs : List α} {ys : List β}
      (hfirst : R drawn x y) (hrest : Each R more xs ys) :
      Each R (drawn + more) (x :: xs) (y :: ys)

end Reading

/-- The effect and the result are what the judgement says. -/
inductive Judgement.Met (R : Reading α β) : Judgement β → Condition α
  | gives {drawn : Multiset Nat} {x : α} {y : β} (calls : Multiset Traversal)
      (hreads : R drawn x y) : Met R (.gives y calls) (calls, drawn) (.ok x)
  | fails (effect : Effect) (failure : Failure) : Met R .fails effect (.error failure)

theorem Judgement.Met.after {R : Reading α β} {judgement : Judgement β} {effect : Effect}
    {result : Except Failure α} {calls : Multiset Traversal} {drawn : Multiset Nat}
    (hmet : judgement.Met (R.after drawn) effect result) :
    (judgement.after calls).Met R ((calls, drawn) + effect) result := by
  cases hmet with
  | gives more hreads => exact .gives _ hreads
  | fails effect failure => exact .fails _ failure

theorem Judgement.Met.cons {R : Reading α β} {j : Judgement β} {js : Judgement (List β)}
    {effect effect' : Effect} {x : α} {xs : List α} (hfirst : j.Met R effect (.ok x))
    (hrest : js.Met R.Each effect' (.ok xs)) :
    Met R.Each (do let y ← j; let ys ← js; return y :: ys) (effect + effect') (.ok (x :: xs)) := by
  cases hfirst with
  | gives calls hreads =>
      cases hrest with
      | gives more hreads' =>
          simp only [gives_bind, pure_eq, after_gives, add_zero]
          exact .gives _ (.cons hreads hreads')

def Computation.Judged (patient : Prop) (R : Reading α β) (computation : Computation α)
    (judgement : Judgement β) : Prop :=
  computation.Concludes patient (judgement.Met R)

namespace Computation.Judged

variable {R : Reading α β} {S : Reading γ δ}

theorem mono {R' : Reading α β} {c : Computation α} {j : Judgement β} (hjudged : c.Judged patient R j)
    (hle : ∀ drawn x y, R drawn x y → R' drawn x y) : c.Judged patient R' j := by
  intro w hactive
  refine (hjudged w hactive).mono fun effect result hmet => ?_
  cases hmet with
  | gives calls hreads => exact .gives calls (hle _ _ _ hreads)
  | fails effect failure => exact .fails effect failure

theorem pure {x : α} {y : β} (hreads : R 0 x y) : Judged patient R (pure x) (pure y) :=
  fun _ hactive => .finished (.refl hactive) (.gives 0 hreads)

theorem fail (failure : Failure) : Judged patient R (fail failure) .fails :=
  fun _ hactive => .finished (.refl hactive) (.fails _ failure)

theorem bind {c : Computation α} {j : Judgement β} {f : α → Computation γ}
    {g : β → Judgement δ} (hjudged : c.Judged patient R j)
    (hnext : ∀ drawn x y, R drawn x y → (f x).Judged patient (S.after drawn) (g y)) :
    (c >>= f).Judged patient S (j >>= g) := by
  intro w hactive
  refine (hjudged w hactive).andThen ?_ ?_
  · intro effect x hmet
    cases hmet with
    | gives calls hreads =>
        intro w' hactive'
        exact (hnext _ x _ hreads w' hactive').mono fun _ _ hmet => hmet.after
  · intro effect failure hmet
    cases hmet
    exact .fails effect failure

/-- A computation whose value is the judged one and that draws nothing comes first. -/
theorem bind_same {c : Computation α} {j : Judgement α} {f : α → Computation γ}
    {g : α → Judgement δ} (hjudged : c.Judged patient Reading.same j)
    (hnext : ∀ x, (f x).Judged patient S (g x)) : (c >>= f).Judged patient S (j >>= g) := by
  refine hjudged.bind ?_
  rintro drawn x y ⟨rfl, rfl⟩
  refine (hnext x).mono fun more z y hreads => ?_
  unfold Reading.after
  rwa [zero_add]

theorem mapFailure {c : Computation α} {j : Judgement β} (rename : Failure → Failure)
    (hjudged : c.Judged patient R j) : (c.mapFailure rename).Judged patient R j := by
  intro w hactive
  refine (hjudged w hactive).mapResult fun effect result hmet => ?_
  cases hmet with
  | gives calls hreads => exact .gives calls hreads
  | fails effect failure => exact .fails effect (rename failure)

theorem cancellable {c : Computation α} {j : Judgement β} (hjudged : c.Judged patient R j) :
    c.cancellable.Judged patient R j := by
  intro w hactive
  simp only [Computation.cancellable, hactive]
  exact (hjudged w hactive).guarded

theorem checkCancelled : Judged patient Reading.same checkCancelled (Pure.pure ()) := by
  intro w hactive
  refine .finished (.refl hactive) ?_
  rw [hactive]
  exact .gives 0 ⟨rfl, rfl⟩

theorem record (invocation : Invocation) :
    Judged patient Reading.same (ofAction (modify fun world => world.record invocation))
      (.gives () (invocation.traversal?.toList : Multiset Traversal)) := by
  intro w hactive
  have hdoes : w.Does (w.record invocation)
      ((invocation.traversal?.toList : Multiset Traversal), 0) := by
    refine ⟨hactive, ?_, 0, rfl, rfl⟩
    cases htraversal : invocation.traversal? with
    | none => simp [World.traversals, World.record, htraversal]
    | some traversal => simp [World.traversals, World.record, htraversal]
  exact .finished hdoes (.gives _ ⟨rfl, rfl⟩)

theorem freshPoint :
    Judged patient (fun drawn id _ => drawn.map PointId.fresh = {id})
      (ofAction Action.freshPoint) (Pure.pure ()) := by
  intro w hactive
  have hdoes : w.Does { w with nextPoint := w.nextPoint + 1 } (0, {w.nextPoint}) :=
    ⟨hactive, (zero_add _).symm, 1, rfl, rfl⟩
  exact .finished hdoes (.gives 0 rfl)

theorem joinAll {cs : List (Computation α)} {js : List (Judgement β)}
    (hjudged : List.Forall₂ (Judged patient R) cs js) :
    (joinAll cs).Judged patient R.Each (.all js) := by
  induction hjudged with
  | nil => exact .pure .nil
  | @cons c j cs js hfirst _ ih =>
      intro w hactive
      refine (hfirst w hactive).beside ih ?_ ?_ ?_
      · intro effect effect' x xs hx hxs
        exact hx.cons hxs
      · intro effect effect' failure hx
        cases hx
        exact .fails _ failure
      · intro effect effect' failure hxs
        simp only [Judgement.all]
        generalize Judgement.all js = rest at hxs ⊢
        cases hxs
        simp only [Judgement.fails_bind, Judgement.bind_fails]
        exact .fails _ failure

end Computation.Judged
end DecisionLogic
