import DecisionLogic.Computation.Lemmas
import DecisionLogic.Proofs.Standard.Bodies

/-!
# Courses

A course is what a computation comes to that ends at once and does the same in every world: a
result, and the operator invocations on the way to it.  Courses are run one after the other, up to
the first failure.
-/

namespace DecisionLogic

variable {α β γ : Type}

@[ext] structure Course (α : Type) where
  result : Except Failure α
  /-- The invocations, in their order. -/
  calls : List Invocation

namespace Course

protected def bind (course : Course α) (next : α → Course β) : Course β :=
  match course.result with
  | .ok x => ⟨(next x).result, course.calls ++ (next x).calls⟩
  | .error failure => ⟨.error failure, course.calls⟩

instance : Monad Course where
  pure x := ⟨.ok x, []⟩
  bind := Course.bind

def fail (failure : Failure) : Course α :=
  ⟨.error failure, []⟩

def call (invocation : Invocation) : Course Unit :=
  ⟨.ok (), [invocation]⟩

theorem bind_of_ok {course : Course α} {x : α} (hresult : course.result = .ok x)
    (next : α → Course β) :
    course >>= next = ⟨(next x).result, course.calls ++ (next x).calls⟩ := by
  change course.bind next = _
  unfold Course.bind
  rw [hresult]

theorem bind_of_error {course : Course α} {failure : Failure}
    (hresult : course.result = .error failure) (next : α → Course β) :
    course >>= next = ⟨.error failure, course.calls⟩ := by
  change course.bind next = _
  unfold Course.bind
  rw [hresult]

instance : LawfulMonad Course := by
  refine LawfulMonad.mk' Course ?_ ?_ ?_
  · intro α course
    change course >>= pure = course
    cases hresult : course.result with
    | ok x =>
        rw [bind_of_ok hresult]
        change (⟨.ok x, course.calls ++ []⟩ : Course α) = course
        rw [List.append_nil, ← hresult]
    | error failure => rw [bind_of_error hresult, ← hresult]
  · intro α β x next
    rfl
  · intro α β γ course f g
    cases hresult : course.result with
    | error failure =>
        rw [bind_of_error hresult, bind_of_error hresult]
        rfl
    | ok x =>
        rw [bind_of_ok hresult, bind_of_ok hresult]
        cases hnext : (f x).result with
        | error failure => rw [bind_of_error hnext, bind_of_error rfl]
        | ok y => rw [bind_of_ok hnext, bind_of_ok rfl, List.append_assoc]

theorem result_map (f : α → β) (course : Course α) :
    (f <$> course).result = course.result.map f := by
  rw [map_eq_pure_bind]
  cases hresult : course.result with
  | ok x =>
      rw [bind_of_ok hresult]
      rfl
  | error failure =>
      rw [bind_of_error hresult]
      rfl

theorem calls_map (f : α → β) (course : Course α) : (f <$> course).calls = course.calls := by
  rw [map_eq_pure_bind]
  cases hresult : course.result with
  | ok x =>
      rw [bind_of_ok hresult]
      exact List.append_nil _
  | error failure => rw [bind_of_error hresult]

/-- What is left of the world after the course. -/
def leave (course : Course α) (w : World) : World :=
  { w with trace := course.calls.reverse ++ w.trace }

theorem leave_map (f : α → β) (course : Course α) (w : World) :
    (f <$> course).leave w = course.leave w := by
  rw [leave, leave, calls_map]

end Course

/-- Unless the token has fired, the first poll ends the computation with the course. -/
structure Computation.Takes (computation : Computation α) (course : Course α) : Prop where
  finished : ∀ w : World, w.cancelled = false →
    computation w = .finished (course.leave w) course.result
  final : OnlyFails Failure.Final course.result

namespace Computation.Takes

variable {c : Computation α} {course : Course α}

theorem unique {other : Course α} (htakes : c.Takes course) (hother : c.Takes other) :
    course = other := by
  have hsame := (htakes.finished (.start 0) rfl).symm.trans (hother.finished (.start 0) rfl)
  injection hsame with hworld hresult
  have htrace : course.calls.reverse ++ [] = other.calls.reverse ++ [] :=
    congrArg World.trace hworld
  obtain ⟨result, calls⟩ := course
  obtain ⟨result', calls'⟩ := other
  simp only [List.append_nil, List.reverse_inj] at htrace
  rw [htrace, show result = result' from hresult]

theorem pure (x : α) : Takes (pure x) (Pure.pure x) :=
  ⟨fun _ _ => rfl, .ok x⟩

theorem fail {failure : Failure} (hfinal : failure.Final) :
    Takes (fail failure : Computation α) (.fail failure) :=
  ⟨fun _ _ => rfl, .error hfinal⟩

theorem call (invocation : Invocation) :
    Takes (ofAction (modify fun world => world.record invocation)) (.call invocation) :=
  ⟨fun _ _ => rfl, .ok ()⟩

theorem answer {result : Except Failure α} (hfinal : OnlyFails Failure.Final result) :
    Takes (ofAction (ExceptT.mk fun world => (result, world))) ⟨result, []⟩ :=
  ⟨fun _ _ => rfl, hfinal⟩

/-- What comes after a computation whose values are made by `f`. -/
theorem bind_map {f : γ → α} {source : Course γ} {next : α → Computation β} {after : γ → Course β}
    (htakes : c.Takes (f <$> source))
    (hnext : ∀ x, source.result = .ok x → (next (f x)).Takes (after x)) :
    (c >>= next).Takes (source >>= after) := by
  have hfinished (w : World) (hactive : w.cancelled = false) :
      c w = .finished (source.leave w) (source.result.map f) := by
    rw [htakes.finished w hactive, Course.leave_map, Course.result_map]
  have hfinal := htakes.final
  rw [Course.result_map] at hfinal
  cases hresult : source.result with
  | ok x =>
      rw [Course.bind_of_ok hresult]
      refine ⟨fun w hactive => ?_, (hnext x hresult).final⟩
      have hlater := (hnext x hresult).finished (source.leave w) hactive
      rw [bind_apply, hfinished w hactive, hresult]
      change next (f x) (source.leave w) = _
      rw [hlater]
      simp only [Course.leave, List.reverse_append, List.append_assoc]
  | error failure =>
      rw [hresult] at hfinal
      rw [Course.bind_of_error hresult]
      refine ⟨fun w hactive => ?_, .error (hfinal failure rfl)⟩
      rw [bind_apply, hfinished w hactive, hresult]
      rfl

theorem bind {next : α → Computation β} {after : α → Course β} (htakes : c.Takes course)
    (hnext : ∀ x, course.result = .ok x → (next x).Takes (after x)) :
    (c >>= next).Takes (course >>= after) := by
  rw [← id_map course] at htakes
  exact htakes.bind_map hnext

theorem checked (htakes : c.Takes course) : (checkCancelled >>= fun _ => c).Takes course := by
  refine ⟨fun w hactive => ?_, htakes.final⟩
  rw [bind_apply, checkCancelled, hactive]
  exact htakes.finished w hactive

/-- Final failures are left as they are on the way out. -/
theorem within (htakes : c.Takes course) (name : String) :
    (c.mapFailure (Failure.within name)).Takes course := by
  refine ⟨fun w hactive => ?_, htakes.final⟩
  unfold Computation.mapFailure
  rw [htakes.finished w hactive]
  cases hresult : course.result with
  | ok x => rfl
  | error failure =>
      have hsame := htakes.final failure hresult name
      change Moment.finished _ (.error (failure.within name)) = .finished _ (.error failure)
      rw [hsame]

theorem cancellable (htakes : c.Takes course) : c.cancellable.Takes course := by
  refine ⟨fun w hactive => ?_, htakes.final⟩
  unfold Computation.cancellable
  rw [hactive, htakes.finished w hactive]
  rfl

/-- Computations that end at once are joined one after the other. -/
theorem joinAll {xs : List β} {computations : β → Computation α} {courses : β → Course α}
    (htake : ∀ x ∈ xs, (computations x).Takes (courses x)) :
    (Computation.joinAll (xs.map computations)).Takes (xs.mapM courses) := by
  induction xs with
  | nil => exact .pure []
  | cons x xs ih =>
      have hfirst := htake x List.mem_cons_self
      have hrest := ih fun y hy => htake y (List.mem_cons_of_mem x hy)
      -- Beside others that end at once, a computation comes before them.
      have hsequence : (computations x >>= fun y =>
          Computation.joinAll (xs.map computations) >>= fun ys => Pure.pure (y :: ys)).Takes
            ((x :: xs).mapM courses) := by
        rw [List.mapM_cons]
        exact hfirst.bind fun y _ => hrest.bind fun ys _ => .pure (y :: ys)
      refine ⟨fun w hactive => ?_, hsequence.final⟩
      rw [← hsequence.finished w hactive]
      change (computations x w).beside (Computation.joinAll (xs.map computations)) =
        (computations x w).andThen _
      rw [hfirst.finished w hactive]
      cases (courses x).result with
      | error failure => rfl
      | ok y =>
          have hothers := hrest.finished ((courses x).leave w) hactive
          change Moment.mapResult _ (Computation.joinAll (xs.map computations) _) =
            (Computation.joinAll (xs.map computations) _).andThen fun ys => Pure.pure (y :: ys)
          rw [hothers]
          cases (xs.mapM courses).result with
          | ok ys => rfl
          | error failure => rfl

end Computation.Takes
end DecisionLogic
