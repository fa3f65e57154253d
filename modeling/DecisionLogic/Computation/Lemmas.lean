import DecisionLogic.Computation.Basic

/-!
# Laws of computations

Computations are a lawful monad, and a poll of a moment goes on with it as soon as the world is
ready.
-/

namespace DecisionLogic

namespace Moment

variable {α β γ : Type}

theorem andThen_pure (moment : Moment α) : moment.andThen Computation.pure = moment := by
  induction moment with
  | finished world result =>
      cases result with
      | ok x => rfl
      | error failure => rfl
  | waiting world ready rest ih =>
      simp only [andThen]
      congr 1
      funext later
      exact ih later

theorem andThen_andThen (moment : Moment α) (f : α → Computation β) (g : β → Computation γ) :
    (moment.andThen f).andThen g = moment.andThen fun x world => (f x world).andThen g := by
  induction moment with
  | finished world result =>
      cases result with
      | ok x => rfl
      | error failure => rfl
  | waiting world ready rest ih =>
      simp only [andThen]
      congr 1
      funext later
      exact ih later

@[simp] theorem poll_finished (world later : World) (result : Except Failure α) :
    (Moment.finished world result).poll later = .finished later result := rfl

theorem poll_waiting_of_ready {world later : World} {ready : World → Bool}
    {rest : World → Moment α} (hready : ready later = true) :
    (Moment.waiting world ready rest).poll later = rest later := by
  simp [poll, hready]

end Moment

namespace Computation

variable {α β : Type}

theorem bind_apply (computation : Computation α) (next : α → Computation β) (world : World) :
    (computation >>= next) world = (computation world).andThen next := rfl

theorem pure_apply (x : α) (world : World) :
    (pure x : Computation α) world = .finished world (.ok x) := rfl

instance : LawfulMonad Computation := by
  refine LawfulMonad.mk' Computation ?_ ?_ ?_
  · intro α computation
    funext world
    exact Moment.andThen_pure (computation world)
  · intro α β x f
    rfl
  · intro α β γ computation f g
    funext world
    exact Moment.andThen_andThen (computation world) f g

end Computation
end DecisionLogic
