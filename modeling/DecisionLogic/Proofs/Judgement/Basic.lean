import DecisionLogic.Json.Basic
import Mathlib.Algebra.Order.Group.Multiset
import Mathlib.Data.List.Forall2

/-!
# Judgements

A judgement is what an evaluation comes to when it does not matter in which order and at which poll
things happen: a failure, or a value with the calls of traversing operators that were made for it.
Calls are counted but not ordered, so judgements commute.
-/

namespace DecisionLogic

abbrev Traversal : Type :=
  String × Json

inductive Judgement (α : Type) where
  | fails
  | gives (value : α) (calls : Multiset Traversal)

namespace Judgement

variable {α β γ : Type}

def after (calls : Multiset Traversal) : Judgement α → Judgement α
  | .fails => .fails
  | .gives x more => .gives x (calls + more)

protected def bind (judgement : Judgement α) (next : α → Judgement β) : Judgement β :=
  match judgement with
  | .fails => .fails
  | .gives x calls => (next x).after calls

instance : Monad Judgement where
  pure x := .gives x 0
  bind := Judgement.bind

def all : List (Judgement α) → Judgement (List α)
  | [] => pure []
  | first :: rest => do
      let x ← first
      let xs ← all rest
      return x :: xs

/-! ## Laws -/

theorem pure_eq (x : α) : (pure x : Judgement α) = .gives x 0 := rfl

@[simp] theorem fails_bind (next : α → Judgement β) :
    (.fails >>= next : Judgement β) = .fails := rfl

@[simp] theorem gives_bind (x : α) (calls : Multiset Traversal) (next : α → Judgement β) :
    (.gives x calls >>= next : Judgement β) = (next x).after calls := rfl

@[simp] theorem after_fails (calls : Multiset Traversal) :
    (.fails : Judgement α).after calls = .fails := rfl

@[simp] theorem after_gives (calls more : Multiset Traversal) (x : α) :
    (.gives x more : Judgement α).after calls = .gives x (calls + more) := rfl

@[simp] theorem after_zero (judgement : Judgement α) : judgement.after 0 = judgement := by
  cases judgement with
  | fails => rfl
  | gives x calls => simp

theorem after_after (calls more : Multiset Traversal) (judgement : Judgement α) :
    (judgement.after more).after calls = judgement.after (calls + more) := by
  cases judgement with
  | fails => rfl
  | gives x others => simp [add_assoc]

theorem after_bind (calls : Multiset Traversal) (judgement : Judgement α)
    (next : α → Judgement β) : judgement.after calls >>= next = (judgement >>= next).after calls := by
  cases judgement with
  | fails => rfl
  | gives x more => simp [after_after]

instance : LawfulMonad Judgement := by
  refine LawfulMonad.mk' Judgement ?_ ?_ ?_
  · intro α judgement
    change judgement >>= (fun x => .gives x 0) = judgement
    cases judgement with
    | fails => rfl
    | gives x calls => simp
  · intro α β x next
    change (.gives x 0 >>= next) = next x
    simp
  · intro α β γ judgement f g
    cases judgement with
    | fails => rfl
    | gives x calls => simp [after_bind]

theorem bind_comm (first : Judgement α) (second : Judgement β) (next : α → β → Judgement γ) :
    (do let x ← first; let y ← second; next x y) =
      (do let y ← second; let x ← first; next x y) := by
  cases first with
  | fails => cases second <;> simp
  | gives x calls =>
      cases second with
      | fails => simp
      | gives y more => simp [after_after, add_comm calls more]

theorem bind_fails (judgement : Judgement α) :
    (judgement >>= fun _ => .fails : Judgement β) = .fails := by
  cases judgement <;> simp

/-- Steps that follow each part may as well follow all of them. -/
theorem all_map_bind (judgements : List (Judgement α)) (next : α → Judgement β) :
    all (judgements.map (· >>= next)) = all judgements >>= fun xs => all (xs.map next) := by
  induction judgements with
  | nil => simp [all]
  | cons first rest ih =>
      simp only [List.map_cons, all, ih, bind_assoc, pure_bind]
      congr 1
      funext x
      rw [bind_comm]

theorem all_map_pure (xs : List α) : all (xs.map pure) = (pure xs : Judgement (List α)) := by
  induction xs with
  | nil => rfl
  | cons x xs ih => simp [all, ih]

/-! ## Values that can come up -/

/-- Every value of the judgement has the property. -/
def Ensures (P : α → Prop) (judgement : Judgement α) : Prop :=
  ∀ x calls, judgement = .gives x calls → P x

namespace Ensures

variable {P : α → Prop} {Q : β → Prop}

theorem fails : Ensures P .fails :=
  nofun

theorem pure {x : α} (hvalue : P x) : Ensures P (pure x) := by
  rintro _ _ ⟨⟩
  exact hvalue

theorem after {judgement : Judgement α} (hensures : judgement.Ensures P)
    (calls : Multiset Traversal) : (judgement.after calls).Ensures P := by
  cases judgement with
  | fails => exact .fails
  | gives x more =>
      rintro _ _ ⟨⟩
      exact hensures x more rfl

theorem bind {judgement : Judgement α} {next : α → Judgement β} (hensures : judgement.Ensures P)
    (hnext : ∀ x, P x → (next x).Ensures Q) : (judgement >>= next).Ensures Q := by
  cases judgement with
  | fails => exact .fails
  | gives x calls => exact (hnext x (hensures x calls rfl)).after calls

theorem mono {P' : α → Prop} {judgement : Judgement α} (hensures : judgement.Ensures P)
    (hle : ∀ x, P x → P' x) : judgement.Ensures P' :=
  fun x calls hgives => hle x (hensures x calls hgives)

theorem all {R : γ → α → Prop} {parts : List γ} {judgements : List (Judgement α)}
    (hensures : List.Forall₂ (fun part judgement => judgement.Ensures (R part)) parts judgements) :
    (all judgements).Ensures fun xs => List.Forall₂ R parts xs := by
  induction hensures with
  | nil => exact .pure .nil
  | cons hfirst _ ih =>
      refine hfirst.bind fun x hx => ih.bind fun xs hxs => ?_
      exact .pure (.cons hx hxs)

end Ensures

/-- A step matters on the values only that can come up. -/
theorem bind_congr_of_ensures {P : α → Prop} {judgement : Judgement α} {f g : α → Judgement β}
    (hensures : judgement.Ensures P) (hnext : ∀ x, P x → f x = g x) :
    judgement >>= f = judgement >>= g := by
  cases judgement with
  | fails => rfl
  | gives x calls => rw [gives_bind, gives_bind, hnext x (hensures x calls rfl)]

end Judgement
end DecisionLogic
