import DecisionLogic.Proofs.Congruence.Basic

/-!
# Computations that coincide

What a computation that concludes comes to depends on when it is polled and on what other
computations do between its polls.  `Moment.Outcome` collects all that it can come to.  Two
computations coincide when both conclude and everything that one comes to matches everything that
the other comes to: values are read in terms of each other, and where one fails the other fails too,
not always in the same way.
-/

namespace DecisionLogic

variable {α β γ δ : Type} {patient : Prop}

/-! ## Outcomes -/

theorem World.Does.unique {w w' : World} {effect effect' : Effect} (hdoes : w.Does w' effect)
    (hdoes' : w.Does w' effect') : effect = effect' := by
  obtain ⟨count, hnext, hdrawn⟩ := hdoes.draws
  obtain ⟨count', hnext', hdrawn'⟩ := hdoes'.draws
  obtain rfl : count = count' := by omega
  refine Prod.ext ?_ (hdrawn.trans hdrawn'.symm)
  exact add_right_cancel (hdoes.calls.symm.trans hdoes'.calls)

/-- What the moment, reached in one poll from the world `w` on, can come to in worlds whose token
has not fired, and with what effect. -/
inductive Moment.Outcome : World → Moment α → Effect → Except Failure α → Prop
  | finished {w w' : World} {effect : Effect} {result : Except Failure α}
      (hdoes : w.Does w' effect) : Outcome w (.finished w' result) effect result
  | waiting {w w' later : World} {effect more : Effect} {ready : World → Bool}
      {rest : World → Moment α} {result : Except Failure α} (hdoes : w.Does w' effect)
      (hactive : later.cancelled = false) (hrest : Outcome later (rest later) more result) :
      Outcome w (.waiting w' ready rest) (effect + more) result

def Computation.Outcome (computation : Computation α) : Condition α :=
  fun effect result => ∃ w : World, w.cancelled = false ∧
    (computation w).Outcome w effect result

namespace Moment.Outcome

variable {condition : Condition α} {w : World} {m : Moment α} {effect : Effect}
  {result : Except Failure α}

theorem meets (houtcome : Outcome w m effect result)
    (hconcludes : m.Concludes patient condition w) : condition effect result := by
  induction houtcome generalizing condition with
  | finished hdoes =>
      cases hconcludes with
      | finished hdoes' hresult => exact hdoes.unique hdoes' ▸ hresult
  | waiting hdoes hactive _ ih =>
      cases hconcludes with
      | waiting _ hdoes' _ hrest =>
          obtain rfl := hdoes.unique hdoes'
          exact ih (hrest _ hactive)

end Moment.Outcome

namespace Moment.Concludes

variable {condition : Condition α} {w : World} {m : Moment α}

/-- A moment concludes with nothing but its outcomes. -/
theorem outcome (hconcludes : m.Concludes patient condition w) :
    m.Concludes patient (Outcome w m) w := by
  induction hconcludes with
  | finished hdoes _ => exact .finished hdoes (.finished hdoes)
  | waiting hpatient hdoes hready _ ih =>
      refine .waiting hpatient hdoes hready fun later hactive => ?_
      exact (ih later hactive).mono fun _ _ => .waiting hdoes hactive

theorem exists_outcome (hconcludes : m.Concludes patient condition w) :
    ∃ effect result, Outcome w m effect result := by
  induction hconcludes with
  | finished hdoes _ => exact ⟨_, _, .finished hdoes⟩
  | waiting _ hdoes _ _ ih =>
      obtain ⟨more, result, hrest⟩ := ih _ hdoes.active
      exact ⟨_, result, .waiting hdoes hdoes.active hrest⟩

end Moment.Concludes

namespace Computation

def Ending (computation : Computation α) : Prop :=
  computation.Concludes True fun _ _ => True

variable {c : Computation α} {next : α → Computation γ} {effect : Effect}

theorem Ending.outcome (hending : c.Ending) : c.Concludes True c.Outcome :=
  fun w hactive => (hending w hactive).outcome.mono fun _ _ houtcome => ⟨w, hactive, houtcome⟩

theorem Ending.exists_outcome (hending : c.Ending) : ∃ effect result, c.Outcome effect result := by
  obtain ⟨effect, result, houtcome⟩ := (hending (.start 0) rfl).exists_outcome
  exact ⟨effect, result, .start 0, rfl, houtcome⟩

theorem Outcome.meets {condition : Condition α} {result : Except Failure α}
    (houtcome : c.Outcome effect result) (hconcludes : c.Concludes patient condition) :
    condition effect result := by
  obtain ⟨w, hactive, houtcome⟩ := houtcome
  exact houtcome.meets (hconcludes w hactive)

/-- What a computation followed by another one comes to. -/
inductive Follows (c : Computation α) (next : α → Computation γ) : Condition γ
  | ok {effect more : Effect} {x : α} {result : Except Failure γ}
      (hfirst : c.Outcome effect (.ok x)) (hnext : (next x).Outcome more result) :
      Follows c next (effect + more) result
  | error {effect : Effect} {failure : Failure} (hfirst : c.Outcome effect (.error failure)) :
      Follows c next effect (.error failure)

theorem concludes_bind (hending : c.Ending)
    (hnext : ∀ effect x, c.Outcome effect (.ok x) → (next x).Ending) :
    (c >>= next).Concludes True (c.Follows next) := by
  intro w hactive
  refine (hending.outcome w hactive).andThen ?_ fun _ _ => .error
  intro effect x houtcome w' hactive'
  exact ((hnext effect x houtcome).outcome w' hactive').mono fun _ _ => .ok houtcome

/-- What a computation beside others comes to. -/
inductive Beside (c : Computation α) (others : Computation (List α)) : Condition (List α)
  | ok {effect more : Effect} {x : α} {xs : List α} (hfirst : c.Outcome effect (.ok x))
      (hothers : others.Outcome more (.ok xs)) : Beside c others (effect + more) (.ok (x :: xs))
  | first {effect more : Effect} {failure : Failure} (hfirst : c.Outcome effect (.error failure)) :
      Beside c others (effect + more) (.error failure)
  | later {effect more : Effect} {failure : Failure}
      (hothers : others.Outcome more (.error failure)) :
      Beside c others (effect + more) (.error failure)

theorem concludes_beside {others : Computation (List α)} (hending : c.Ending)
    (hothers : others.Ending) :
    Computation.Concludes True (c.Beside others) fun w => (c w).beside others := by
  intro w hactive
  exact (hending.outcome w hactive).beside hothers.outcome (fun _ _ _ _ => .ok)
    (fun _ _ _ => .first) fun _ _ _ => .later

end Computation

/-! ## Coincidence -/

/-- Values that are read in terms of each other, or two failures. -/
inductive Matched (R : α → β → Prop) : Except Failure α → Except Failure β → Prop
  | ok {x : α} {y : β} (hreads : R x y) : Matched R (.ok x) (.ok y)
  | error (failure failure' : Failure) : Matched R (.error failure) (.error failure')

theorem Matched.mono {R S : α → β → Prop} {x : Except Failure α} {y : Except Failure β}
    (hmatched : Matched R x y) (hle : ∀ x y, R x y → S x y) : Matched S x y := by
  cases hmatched with
  | ok hreads => exact .ok (hle _ _ hreads)
  | error failure failure' => exact .error failure failure'

structure Computation.Coincides (R : Reading α β) (c : Computation α) (d : Computation β) :
    Prop where
  left : c.Ending
  right : d.Ending
  matched : ∀ effect effect' x y, c.Outcome effect x → d.Outcome effect' y →
    Matched (R effect.2) x y

namespace Computation.Coincides

variable {R : Reading α β} {S : Reading γ δ} {c : Computation α} {d : Computation β}

/-- It is enough to know that one side meets one condition and the other side another one. -/
theorem of_concludes {condition : Condition α} {condition' : Condition β}
    (hleft : c.Concludes True condition) (hright : d.Concludes True condition')
    (hmatched : ∀ effect effect' x y, condition effect x → condition' effect' y →
      Matched (R effect.2) x y) : Coincides R c d := by
  refine ⟨?_, ?_, ?_⟩
  · exact fun w hactive => (hleft w hactive).mono fun _ _ _ => trivial
  · exact fun w hactive => (hright w hactive).mono fun _ _ _ => trivial
  · intro effect effect' x y hx hy
    exact hmatched effect effect' x y (hx.meets hleft) (hy.meets hright)

theorem mono {R' : Reading α β} (hcoincides : Coincides R c d)
    (hle : ∀ drawn x y, R drawn x y → R' drawn x y) : Coincides R' c d :=
  ⟨hcoincides.left, hcoincides.right, fun effect _ _ _ hx hy =>
    (hcoincides.matched _ _ _ _ hx hy).mono (hle effect.2)⟩

theorem exists_right (hcoincides : Coincides R c d) {effect : Effect} {x : α}
    (hx : c.Outcome effect (.ok x)) : ∃ effect' y, d.Outcome effect' (.ok y) ∧ R effect.2 x y := by
  obtain ⟨effect', result, hresult⟩ := hcoincides.right.exists_outcome
  cases hcoincides.matched _ _ _ _ hx hresult with
  | ok hreads => exact ⟨effect', _, hresult, hreads⟩

theorem exists_left (hcoincides : Coincides R c d) {effect' : Effect} {y : β}
    (hy : d.Outcome effect' (.ok y)) : ∃ effect x, c.Outcome effect (.ok x) ∧ R effect.2 x y := by
  obtain ⟨effect, result, hresult⟩ := hcoincides.left.exists_outcome
  cases hcoincides.matched _ _ _ _ hresult hy with
  | ok hreads => exact ⟨effect, _, hresult, hreads⟩

theorem bind {next : α → Computation γ} {next' : β → Computation δ}
    (hcoincides : Coincides R c d)
    (hnext : ∀ drawn x y, R drawn x y → Coincides (S.after drawn) (next x) (next' y)) :
    Coincides S (c >>= next) (d >>= next') := by
  have hleft : ∀ effect x, c.Outcome effect (.ok x) → (next x).Ending := by
    intro effect x hx
    obtain ⟨_, y, -, hreads⟩ := hcoincides.exists_right hx
    exact (hnext _ x y hreads).left
  have hright : ∀ effect y, d.Outcome effect (.ok y) → (next' y).Ending := by
    intro effect y hy
    obtain ⟨_, x, -, hreads⟩ := hcoincides.exists_left hy
    exact (hnext _ x y hreads).right
  refine of_concludes (concludes_bind hcoincides.left hleft)
    (concludes_bind hcoincides.right hright) ?_
  intro effect effect' result result' hresult hresult'
  cases hresult with
  | ok hx hmore =>
      cases hresult' with
      | ok hy hmore' =>
          cases hcoincides.matched _ _ _ _ hx hy with
          | ok hreads => exact (hnext _ _ _ hreads).matched _ _ _ _ hmore hmore'
      | error hy => cases hcoincides.matched _ _ _ _ hx hy
  | error hx =>
      cases hresult' with
      | ok hy hmore' => cases hcoincides.matched _ _ _ _ hx hy
      | error hy => exact .error _ _

theorem pure {x : α} {y : β} (hreads : R 0 x y) : Coincides R (pure x) (pure y) := by
  have hpure {ε : Type} (z : ε) : Computation.Concludes True
      (fun effect result => effect = 0 ∧ result = .ok z) (Pure.pure z) :=
    fun _ hactive => .finished (.refl hactive) ⟨rfl, rfl⟩
  refine of_concludes (hpure x) (hpure y) ?_
  rintro _ _ _ _ ⟨rfl, rfl⟩ ⟨-, rfl⟩
  exact .ok hreads

theorem fail (failure failure' : Failure) : Coincides R (fail failure) (fail failure') := by
  have hfail {ε : Type} (failure : Failure) : Computation.Concludes True
      (fun _ result => result = .error failure) (Computation.fail failure : Computation ε) :=
    fun _ hactive => .finished (.refl hactive) rfl
  refine of_concludes (hfail failure) (hfail failure') ?_
  rintro _ _ _ _ rfl rfl
  exact .error failure failure'

theorem mapFailure {rename rename' : Failure → Failure} (hcoincides : Coincides R c d) :
    Coincides R (c.mapFailure rename) (d.mapFailure rename') := by
  have hmap {ε : Type} {e : Computation ε} (hending : e.Ending) (rename : Failure → Failure) :
      (e.mapFailure rename).Concludes True fun effect result =>
        ∃ before, e.Outcome effect before ∧ result = before.mapError rename :=
    fun w hactive => (hending.outcome w hactive).mapResult fun _ before houtcome =>
      ⟨before, houtcome, rfl⟩
  refine of_concludes (hmap hcoincides.left rename) (hmap hcoincides.right rename') ?_
  rintro effect effect' _ _ ⟨x, hx, rfl⟩ ⟨y, hy, rfl⟩
  cases hcoincides.matched _ _ _ _ hx hy with
  | ok hreads => exact .ok hreads
  | error failure failure' => exact .error _ _

theorem cancellable (hcoincides : Coincides R c d) : Coincides R c.cancellable d.cancellable := by
  have hguarded {ε : Type} {e : Computation ε} (hending : e.Ending) :
      e.cancellable.Concludes True e.Outcome := by
    intro w hactive
    simp only [Computation.cancellable, hactive]
    exact (hending.outcome w hactive).guarded
  exact of_concludes (hguarded hcoincides.left) (hguarded hcoincides.right) hcoincides.matched

theorem checkCancelled : Coincides (fun _ _ _ => True) checkCancelled checkCancelled := by
  have hcheck : Computation.checkCancelled.Concludes True fun _ result => result = .ok () := by
    intro w hactive
    refine .finished (.refl hactive) ?_
    rw [hactive]
    rfl
  refine of_concludes hcheck hcheck ?_
  rintro _ _ _ _ rfl rfl
  exact .ok trivial

theorem record (invocation invocation' : Invocation) : Coincides (fun _ _ _ => True)
    (ofAction (modify fun world => world.record invocation))
    (ofAction (modify fun world => world.record invocation')) := by
  have hrecord (invocation : Invocation) : Computation.Concludes True
      (fun _ result => result = .ok ())
      (ofAction (modify fun world => world.record invocation)) := by
    intro w hactive
    refine (Judged.record invocation w hactive).mono fun effect result hmet => ?_
    cases hmet
    rfl
  refine of_concludes (hrecord invocation) (hrecord invocation') ?_
  rintro _ _ _ _ rfl rfl
  exact .ok trivial

theorem freshPoint : Coincides (fun drawn id _ => drawn.map PointId.fresh = {id})
    (ofAction Action.freshPoint) (ofAction Action.freshPoint) := by
  have hfresh : (ofAction Action.freshPoint).Concludes True fun effect result =>
      ∃ n, effect = (0, {n}) ∧ result = .ok (.fresh n) := by
    intro w hactive
    have hdoes : w.Does { w with nextPoint := w.nextPoint + 1 } (0, {w.nextPoint}) :=
      ⟨hactive, (zero_add _).symm, 1, rfl, rfl⟩
    exact .finished hdoes ⟨w.nextPoint, rfl, rfl⟩
  refine of_concludes hfresh hfresh ?_
  rintro _ _ _ _ ⟨n, rfl, rfl⟩ ⟨m, -, rfl⟩
  exact .ok (Multiset.map_singleton _ _)

theorem joinAll {cs : List (Computation α)} {ds : List (Computation β)}
    (hcoincide : List.Forall₂ (Coincides R) cs ds) :
    Coincides R.Each (joinAll cs) (joinAll ds) := by
  induction hcoincide with
  | nil => exact .pure .nil
  | @cons c d cs ds hfirst _ ih =>
      refine of_concludes (concludes_beside hfirst.left ih.left)
        (concludes_beside hfirst.right ih.right) ?_
      intro effect effect' result result' hresult hresult'
      cases hresult with
      | ok hx hxs =>
          cases hresult' with
          | ok hy hys =>
              cases hfirst.matched _ _ _ _ hx hy with
              | ok hreads =>
                  cases ih.matched _ _ _ _ hxs hys with
                  | ok hrest => exact .ok (.cons hreads hrest)
          | first hy => cases hfirst.matched _ _ _ _ hx hy
          | later hys => cases ih.matched _ _ _ _ hxs hys
      | first hx =>
          cases hresult' with
          | ok hy hys => cases hfirst.matched _ _ _ _ hx hy
          | first hy => exact .error _ _
          | later hys => exact .error _ _
      | later hxs =>
          cases hresult' with
          | ok hy hys => cases ih.matched _ _ _ _ hxs hys
          | first hy => exact .error _ _
          | later hys => exact .error _ _

end Computation.Coincides

/-- The congruence of computations that coincide. -/
def Congruence.timing : Congruence where
  Rel := Computation.Coincides
  Fails _ _ := True
  Draws := fun drawn id _ => drawn.map PointId.fresh = {id}
  mono := .mono
  pure := .pure
  fail _ := .fail _ _
  bind := .bind
  joinAll := .joinAll
  mapFailure hcoincides _ := hcoincides.mapFailure
  cancellable := .cancellable
  checkCancelled := .checkCancelled
  freshPoint := .freshPoint

end DecisionLogic
