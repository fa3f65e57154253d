import DecisionLogic.Scope

/-!
# Scopes that agree for some way up

A path that does not go further up than two scopes agree has the same value in both, whatever
encloses them above that.
-/

namespace DecisionLogic.Scope

/-- The scopes are at the same place, and so are those that enclose them for `reach` steps up. -/
inductive Agree : Nat → Scope → Scope → Prop
  | here {s t : Scope} (hhere : s.here = t.here) : Agree 0 s t
  | up {reach : Nat} {s t parent parent' : Scope} (hhere : s.here = t.here)
      (hparent : s.parent? = some parent) (hparent' : t.parent? = some parent')
      (habove : Agree reach parent parent') : Agree (reach + 1) s t

namespace Agree

variable {reach : Nat} {s t : Scope}

theorem child (hagree : Agree reach s t) (data : Json) :
    Agree (reach + 1) (s.child data) (t.child data) :=
  .up rfl (parent?_child s data) (parent?_child t data) hagree

theorem ancestor (hagree : Agree reach s t) {ups : Nat} (hups : ups ≤ reach) :
    (s.ancestor ups).here = (t.ancestor ups).here := by
  induction hagree generalizing ups with
  | here hhere =>
      obtain rfl : ups = 0 := Nat.le_zero.mp hups
      exact hhere
  | up hhere hparent hparent' _ ih =>
      cases ups with
      | zero => exact hhere
      | succ ups =>
          simp only [Scope.ancestor, hparent, hparent']
          exact ih (Nat.le_of_succ_le_succ hups)

end Agree

variable {s t : Scope}

/-- Walking down never looks at what encloses the place it starts from. -/
theorem data_walk?_eq (hhere : s.here = t.here) (value : Json) (keys : List String) :
    (s.walk? value keys).map data = (t.walk? value keys).map data := by
  induction keys generalizing s t value with
  | nil => simp [walk?, data, hhere]
  | cons key keys ih =>
      have hdescend : (s.descend key).here = (t.descend key).here := by simp [descend, hhere]
      unfold walk?
      cases value.step? key with
      | none => rfl
      | some next => exact ih hdescend next

theorem resolve_eq_getD (scope : Scope) (path : String) :
    scope.resolve path =
      if reservedField ∈ (Path.parse path).keys then .error (.pathSecurity path reservedField)
      else
        let start := scope.ancestor (Path.parse path).ups
        .ok (((start.walk? start.data (Path.parse path).keys).map data).getD .null) := by
  unfold resolve lookup
  dsimp only
  split
  · rfl
  · cases walk? _ _ _ <;> rfl

theorem Agree.resolve_eq {reach : Nat} (hagree : Agree reach s t) {path : String}
    (hups : (Path.parse path).ups ≤ reach) : s.resolve path = t.resolve path := by
  have hstart := hagree.ancestor hups
  have hdata : (s.ancestor (Path.parse path).ups).data = (t.ancestor (Path.parse path).ups).data :=
    congrArg Place.data hstart
  simp only [resolve_eq_getD, hdata, data_walk?_eq hstart]

end DecisionLogic.Scope
