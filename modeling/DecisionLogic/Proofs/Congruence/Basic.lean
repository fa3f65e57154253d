import DecisionLogic.Proofs.Alike.Operator
import DecisionLogic.Proofs.Judgement.Judged

/-!
# Ways to compare computations

A congruence compares two computations by what they end with, and the steps from which evaluation is
made respect it: values, failures, continuations, joins, looks at the token, and new identifiers.  A
property of single computations is a congruence that does not look at the second one.  What is shown
here and of the standard operators for every congruence is used for each property in turn.
-/

namespace DecisionLogic

/-- A comparison of computations, given how their values are read in terms of each other. -/
structure Congruence where
  Rel {α β : Type} : Reading α β → Computation α → Computation β → Prop
  Fails : Failure → Failure → Prop
  Draws : Reading PointId PointId
  mono {α β : Type} {R S : Reading α β} {c : Computation α} {d : Computation β} :
    Rel R c d → (∀ drawn x y, R drawn x y → S drawn x y) → Rel S c d
  pure {α β : Type} {R : Reading α β} {x : α} {y : β} : R 0 x y → Rel R (pure x) (pure y)
  fail {α β : Type} {R : Reading α β} {f g : Failure} :
    Fails f g → Rel R (Computation.fail f) (Computation.fail g)
  bind {α β γ δ : Type} {R : Reading α β} {S : Reading γ δ} {c : Computation α}
    {d : Computation β} {next : α → Computation γ} {next' : β → Computation δ} :
    Rel R c d → (∀ drawn x y, R drawn x y → Rel (S.after drawn) (next x) (next' y)) →
      Rel S (c >>= next) (d >>= next')
  joinAll {α β : Type} {R : Reading α β} {cs : List (Computation α)} {ds : List (Computation β)} :
    List.Forall₂ (Rel R) cs ds → Rel R.Each (Computation.joinAll cs) (Computation.joinAll ds)
  mapFailure {α β : Type} {R : Reading α β} {c : Computation α} {d : Computation β}
    {rename rename' : Failure → Failure} :
    Rel R c d → (∀ f g, Fails f g → Fails (rename f) (rename' g)) →
      Rel R (c.mapFailure rename) (d.mapFailure rename')
  cancellable {α β : Type} {R : Reading α β} {c : Computation α} {d : Computation β} :
    Rel R c d → Rel R c.cancellable d.cancellable
  checkCancelled : Rel (fun _ _ _ => True) Computation.checkCancelled Computation.checkCancelled
  freshPoint :
    Rel Draws (Computation.ofAction Action.freshPoint) (Computation.ofAction Action.freshPoint)

/-- How two suspensions are read in terms of each other. -/
abbrev Linkage : Type :=
  Reading Suspension Suspension

/-- What holds with some numbers drawn holds with more. -/
def Reading.Lasting {α β : Type} (R : Reading α β) : Prop :=
  ∀ drawn more x y, R more x y → R (drawn + more) x y

theorem Reading.Lasting.after {α β : Type} {R : Reading α β} (hlasting : R.Lasting)
    (drawn : Multiset Nat) {more : Multiset Nat} {x : α} {y : β} (hreads : R more x y) :
    R.after drawn more x y :=
  hlasting drawn more x y hreads

def Reading.equal {α : Type} : Reading α α :=
  fun _ x y => x = y

theorem Reading.eq_of_each_equal {α : Type} {drawn : Multiset Nat} {xs ys : List α}
    (heach : (Reading.equal : Reading α α).Each drawn xs ys) : xs = ys := by
  induction heach with
  | nil => rfl
  | cons hfirst _ ih => rw [hfirst, ih]

theorem Reading.Each.exists_of_mem {α β : Type} {R : Reading α β} {drawn : Multiset Nat}
    {xs : List α} {ys : List β} (heach : R.Each drawn xs ys) {x : α} (hx : x ∈ xs) :
    ∃ more y, R more x y := by
  induction heach with
  | nil => cases hx
  | @cons drawn more first y xs ys hfirst _ ih =>
      rcases List.mem_cons.mp hx with heq | hrest
      · exact ⟨drawn, y, heq ▸ hfirst⟩
      · exact ih hrest

theorem Reading.Each.mono {α β : Type} {R S : Reading α β} {drawn : Multiset Nat} {xs : List α}
    {ys : List β} (heach : R.Each drawn xs ys) (hle : ∀ drawn x y, R drawn x y → S drawn x y) :
    S.Each drawn xs ys := by
  induction heach with
  | nil => exact .nil
  | cons hfirst _ ih => exact .cons (hle _ _ _ hfirst) ih

namespace Evaluation

/-- The same value, or suspensions that are linked. -/
inductive Linked (T : Linkage) : Reading Evaluation Evaluation
  | done (drawn : Multiset Nat) (value : Json) : Linked T drawn (.done value) (.done value)
  | suspended {drawn : Multiset Nat} {s t : Suspension} (hlinked : T drawn s t) :
      Linked T drawn (.suspended s) (.suspended t)

variable {T W : Linkage} {drawn : Multiset Nat} {evaluation evaluation' : Evaluation}

theorem Linked.mono (hlinked : evaluation.Linked T drawn evaluation')
    (hle : ∀ drawn s t, T drawn s t → W drawn s t) : evaluation.Linked W drawn evaluation' := by
  cases hlinked with
  | done drawn value => exact .done drawn value
  | suspended hsuspension => exact .suspended (hle _ _ _ hsuspension)

theorem linked_lasting (hlasting : T.Lasting) : (Linked T).Lasting := by
  intro drawn more x y hlinked
  cases hlinked with
  | done _ value => exact .done _ value
  | suspended hsuspension => exact .suspended (hlasting drawn _ _ _ hsuspension)

theorem Linked.isSuspended (hlinked : evaluation.Linked T drawn evaluation') :
    evaluation.isSuspended = evaluation'.isSuspended := by
  cases hlinked <;> rfl

theorem Linked.value? (hlinked : evaluation.Linked T drawn evaluation') :
    evaluation.value? = evaluation'.value? := by
  cases hlinked <;> rfl

/-- Linked suspensions in a sequence make the suspended sequences linked. -/
def Joins (T W : Linkage) : Prop :=
  ∀ (drawn : Multiset Nat) (results results' : List Evaluation),
    Reading.Each (Linked T) drawn results results' → results.any isSuspended = true →
      W drawn ⟨.sequence (results.map PartialTree.ofEvaluation)⟩
        ⟨.sequence (results'.map PartialTree.ofEvaluation)⟩

theorem Joins.weaken {T' : Linkage} (hjoins : Joins T W)
    (hle : ∀ drawn s t, T' drawn s t → T drawn s t) : Joins T' W :=
  fun drawn results results' hlinked =>
    hjoins drawn results results' (hlinked.mono fun _ _ _ h => h.mono hle)

theorem linked_join {results results' : List Evaluation} (hjoins : Joins T W)
    (hlinked : Reading.Each (Linked T) drawn results results') :
    (join results).Linked W drawn (join results') := by
  have hany : results.any isSuspended = results'.any isSuspended := by
    induction hlinked with
    | nil => rfl
    | cons hfirst _ ih => simp only [List.any_cons, hfirst.isSuspended, ih]
  have hvalues : results.filterMap Evaluation.value? = results'.filterMap Evaluation.value? := by
    clear hany
    induction hlinked with
    | nil => rfl
    | cons hfirst _ ih => simp only [List.filterMap_cons, hfirst.value?, ih]
  unfold join
  rw [← hany, ← hvalues]
  split
  next hsuspended => exact .suspended (hjoins drawn results results' hlinked hsuspended)
  next => exact .done drawn _

end Evaluation

namespace Congruence

variable {K : Congruence} {T W : Linkage} {drawn : Multiset Nat}

/-- The outputs of two bodies. -/
inductive Outputs (K : Congruence) (T : Linkage) : Reading Output Output
  | value (drawn : Multiset Nat) (value : Json) : Outputs K T drawn (.value value) (.value value)
  | pending (drawn : Multiset Nat) {cs ds : List (Computation Json)}
      (hcomputations : List.Forall₂ (K.Rel Reading.equal) cs ds) :
      Outputs K T drawn (.pending cs) (.pending ds)
  | yield (drawn : Multiset Nat) (reason : Json) :
      Outputs K T drawn (.yield reason) (.yield reason)
  | evaluation {drawn : Multiset Nat} {evaluation evaluation' : Evaluation}
      (hlinked : evaluation.Linked T drawn evaluation') :
      Outputs K T drawn (.evaluation evaluation) (.evaluation evaluation')

theorem outputs_lasting (hlasting : T.Lasting) : (K.Outputs T).Lasting := by
  intro drawn more x y houtputs
  cases houtputs with
  | value _ value => exact .value _ value
  | pending _ hcomputations => exact .pending _ hcomputations
  | yield _ reason => exact .yield _ reason
  | evaluation hlinked => exact .evaluation (Evaluation.linked_lasting hlasting drawn _ _ _ hlinked)

variable {α β γ δ : Type} {R : Reading α β} {S : Reading γ δ}

theorem pureAfter {x : α} {y : β} (hreads : R drawn x y) :
    K.Rel (R.after drawn) (Pure.pure x) (Pure.pure y) := by
  apply K.pure
  unfold Reading.after
  rwa [add_zero]

theorem later {c : Computation α} {d : Computation β} (hlasting : R.Lasting) (hrel : K.Rel R c d) :
    K.Rel (R.after drawn) c d :=
  K.mono hrel fun _ _ _ hreads => hlasting.after drawn hreads

theorem checked {c : Computation α} {d : Computation β} (hlasting : R.Lasting)
    (hrel : K.Rel R c d) :
    K.Rel R (Computation.checkCancelled >>= fun _ => c)
      (Computation.checkCancelled >>= fun _ => d) :=
  K.bind K.checkCancelled fun _ _ _ _ => later hlasting hrel

/-! ## Calls -/

/-- Two calls of operators of one name with one input. -/
theorem callOperator_rel {name : String} {operator operator' : Operator} {input : Input}
    {scope scope' : Scope} {handle handle' : Handle} (hlasting : T.Lasting)
    (hoptions : handle.options = handle'.options)
    (hrecord : K.Rel (fun _ _ _ => True)
      (Computation.ofAction (modify fun world => world.record ⟨name, operator.origin, input⟩))
      (Computation.ofAction (modify fun world => world.record ⟨name, operator'.origin, input⟩)))
    (hwithin : ∀ f g, K.Fails f g → K.Fails (f.within name) (g.within name))
    (hdisabled : handle.options.yieldSupported = false →
      K.Fails (.suspensionDisabled name) (.suspensionDisabled name))
    (hpoint : handle.options.yieldSupported = true → ∀ drawn id id' reason, K.Draws drawn id id' →
      T drawn (.ofPoint ⟨id, name, input.toJson, reason⟩)
        (.ofPoint ⟨id', name, input.toJson, reason⟩))
    (hbody : K.Rel (K.Outputs T) (operator.body.run input scope handle)
      (operator'.body.run input scope' handle')) :
    K.Rel (Evaluation.Linked T) (callOperator name operator input scope handle)
      (callOperator name operator' input scope' handle') := by
  have hlinked : (Evaluation.Linked T).Lasting := Evaluation.linked_lasting hlasting
  unfold callOperator
  refine K.bind hrecord fun _ _ _ _ => later hlinked ?_
  refine K.bind (K.mapFailure hbody hwithin) fun drawn output output' houtputs => ?_
  cases houtputs with
  | value _ value => exact pureAfter (.done drawn value)
  | evaluation hevaluation => exact pureAfter hevaluation
  | pending _ hcomputations =>
      refine K.bind (K.mapFailure (K.cancellable (K.joinAll hcomputations)) hwithin) ?_
      intro more values values' hvalues
      rw [Reading.eq_of_each_equal hvalues]
      exact K.pure (.done _ _)
  | yield _ reason =>
      simp only [← hoptions]
      split
      next hsupported =>
        refine K.bind K.freshPoint fun more id id' hdraws => K.pure (.suspended ?_)
        apply hlasting
        rw [add_zero]
        exact hpoint hsupported more id id' reason hdraws
      next hsupported => exact K.fail (hdisabled (by simpa using hsupported))

end Congruence
end DecisionLogic
