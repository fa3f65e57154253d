import DecisionLogic.Proofs.Alike.Moment

/-!
# How alike computations are put together

Sequencing, joining, guarding and the elementary steps keep computations alike.  The lemma that
carries the most is `AlikeFrom.joinAll`: the unfinished parts of a join are polled in turn, so
between two polls of one part the others draw numbers of their own.
-/

namespace DecisionLogic

variable {α β γ δ : Type} {V : Likeness α β} {U : Likeness γ δ} {pairs : Pairing}

namespace Likeness

def same : Likeness α α :=
  fun _ x y => x = y

theorem same_lasting : Lasting (same (α := α)) :=
  fun _ _ _ _ _ hvalue => hvalue

/-- Outcomes that differ in corresponding identifiers only. -/
def evaluation : Likeness Evaluation Evaluation :=
  fun pairs => Evaluation.Alike pairs.Ids

theorem evaluation_lasting : evaluation.Lasting :=
  fun _ _ _ _ hsub hvalue => hvalue.mono (Pairing.Ids.mono hsub)

def list (V : Likeness α β) : Likeness (List α) (List β) :=
  fun pairs => List.Forall₂ (V pairs)

theorem Lasting.list (hlasting : V.Lasting) : V.list.Lasting :=
  fun _ _ _ _ hsub hvalues => hvalues.imp fun x y => hlasting _ _ x y hsub

end Likeness

namespace Computation.AlikeFrom

theorem weaken {more : Pairing} {c : Computation α} {d : Computation β}
    (halike : AlikeFrom V pairs c d) (hsub : pairs ⊆ more) : AlikeFrom V more c d :=
  fun later w v hsub' hsame => halike later w v (List.Subset.trans hsub hsub') hsame

theorem pure {x : α} {y : β} (hlasting : V.Lasting) (hvalue : V pairs x y) :
    AlikeFrom V pairs (pure x) (pure y) := by
  intro more w v hsub hsame
  refine .finished (.refl hsame) (.ok ?_)
  exact hlasting _ _ _ _ (List.Subset.trans hsub (List.subset_append_left _ _)) hvalue

theorem fail (failure : Failure) : AlikeFrom V pairs (fail failure) (fail failure) :=
  fun _ _ _ _ hsame => .finished (.refl hsame) (.error failure)

theorem bind {c : Computation α} {d : Computation β} {f : α → Computation γ}
    {g : β → Computation δ} (halike : AlikeFrom V pairs c d)
    (hnext : ∀ (more : Pairing) (x : α) (y : β), pairs ⊆ more → V more x y →
      AlikeFrom U more (f x) (g y)) :
    AlikeFrom U pairs (c >>= f) (d >>= g) := by
  intro more w v hsub hsame
  apply (halike more w v hsub hsame).andThen
  intro more' x y hsub'
  exact hnext more' x y (List.Subset.trans hsub hsub')

theorem mapFailure {c : Computation α} {d : Computation β} (rename : Failure → Failure)
    (halike : AlikeFrom V pairs c d) :
    AlikeFrom V pairs (c.mapFailure rename) (d.mapFailure rename) := by
  intro more w v hsub hsame
  apply (halike more w v hsub hsame).mapResult
  intro more' x y _ hresult
  cases hresult with
  | ok hvalue => exact .ok hvalue
  | error failure => exact .error (rename failure)

theorem cancellable {c : Computation α} {d : Computation β} (halike : AlikeFrom V pairs c d) :
    AlikeFrom V pairs c.cancellable d.cancellable := by
  intro more w v hsub hsame
  unfold Computation.cancellable
  rw [hsame.cancelled]
  split
  · exact .finished (.refl hsame) (.error .cancelled)
  · exact (halike more w v hsub hsame).guarded

theorem checkCancelled :
    AlikeFrom Likeness.same pairs checkCancelled checkCancelled := by
  intro more w v _ hsame
  refine .finished (.refl hsame) ?_
  rw [hsame.cancelled]
  split
  · exact .error .cancelled
  · exact .ok rfl

theorem record (invocation : Invocation) :
    AlikeFrom Likeness.same pairs
      (ofAction (modify fun world => world.record invocation))
      (ofAction (modify fun world => world.record invocation)) := by
  intro more w v _ hsame
  have hadvance : World.Advance w v (w.record invocation) (v.record invocation) 0 :=
    ⟨⟨rfl, rfl, [invocation], [invocation], rfl, rfl, rfl⟩, ⟨hsame.bag, hsame.cancelled⟩⟩
  exact .finished hadvance (.ok rfl)

theorem getBag :
    AlikeFrom Likeness.same pairs (ofAction Action.getBag) (ofAction Action.getBag) := by
  intro more w v _ hsame
  exact .finished (.refl hsame) (.ok hsame.bag)

theorem setBag (bag : Fields Json) :
    AlikeFrom Likeness.same pairs (ofAction (Action.setBag bag)) (ofAction (Action.setBag bag)) := by
  intro more w v _ hsame
  have hadvance : World.Advance w v { w with bag } { v with bag } 0 :=
    ⟨⟨rfl, rfl, [], [], rfl, rfl, rfl⟩, ⟨rfl, hsame.cancelled⟩⟩
  exact .finished hadvance (.ok rfl)

theorem pause (polls : Nat) : AlikeFrom Likeness.same pairs (pause polls) (pause polls) := by
  induction polls generalizing pairs with
  | zero => exact .pure Likeness.same_lasting rfl
  | succ polls ih =>
      intro more w v _ hsame
      refine .waiting (.refl hsame) (fun _ _ _ => rfl) ?_
      intro more' later later' _ hsame'
      exact ih more' later later' (List.Subset.refl _) hsame'

theorem freshPoint :
    AlikeFrom (fun pairs => pairs.Ids) pairs (ofAction Action.freshPoint)
      (ofAction Action.freshPoint) := by
  intro more w v _ hsame
  have hadvance : World.Advance w v { w with nextPoint := w.nextPoint + 1 }
      { v with nextPoint := v.nextPoint + 1 } 1 :=
    ⟨⟨rfl, rfl, [], [], rfl, rfl, rfl⟩, ⟨hsame.bag, hsame.cancelled⟩⟩
  refine .finished hadvance (.ok ⟨w.nextPoint, v.nextPoint, ?_, rfl, rfl⟩)
  simp [World.nextPairs]

end Computation.AlikeFrom

/-! ## Joins -/

namespace Moment.Alike

variable {w v : World}

theorem besideWaiting (hlasting : V.Lasting) {m : Moment (List α)} {n : Moment (List β)}
    {ready ready' : World → Bool} {resume : World → Computation (List α) → Moment (List α)}
    {resume' : World → Computation (List β) → Moment (List β)}
    (hready : ∀ later later' : World, later.Same later' → ready later = ready' later')
    (hresume : ∀ (more : Pairing) (later later' : World) (c : Computation (List α))
      (d : Computation (List β)), pairs ⊆ more → later.Same later' →
        Computation.AlikeFrom V.list more c d →
          Alike V.list more later later' (resume later c) (resume' later' d))
    (halike : Alike V.list pairs w v m n) :
    Alike V.list pairs w v (m.besideWaiting ready resume) (n.besideWaiting ready' resume') := by
  induction halike with
  | finished hadvance hresult =>
      cases hresult with
      | ok hvalues =>
          refine .waiting hadvance hready ?_
          intro more later later' hsub hsame
          apply hresume _ _ _ _ _ (Pairing.subset_of_append hsub) hsame
          exact .pure hlasting.list (hlasting.list _ _ _ _ hsub hvalues)
      | error failure => exact .finished hadvance (.error failure)
  | waiting hadvance hready' hrest ih =>
      refine .waiting hadvance ?_ ?_
      · intro later later' hsame
        rw [hready later later' hsame, hready' later later' hsame]
      · intro more later later' hsub hsame
        rw [hready later later' hsame]
        split
        · -- The part that is polled again goes first; the others follow in the same poll.
          apply hresume _ _ _ _ _ (Pairing.subset_of_append hsub) hsame
          intro more' next next' hsub' hsame'
          have hfrom := List.Subset.trans hsub hsub'
          simp only [hready' next next' hsame']
          split
          · exact hrest _ _ _ hfrom hsame'
          · refine .waiting (.refl hsame') hready' ?_
            intro more'' last last' hsub'' hsame''
            exact hrest _ _ _ (List.Subset.trans hfrom (Pairing.subset_of_append hsub'')) hsame''
        · apply ih more later later' hsub hsame
          intro more' next next' c d hsub'
          apply hresume
          exact List.Subset.trans (Pairing.subset_of_append hsub) hsub'

theorem beside (hlasting : V.Lasting) {m : Moment α} {n : Moment β}
    {others : Computation (List α)} {others' : Computation (List β)}
    (halike : Alike V pairs w v m n) (hothers : Computation.AlikeFrom V.list pairs others others') :
    Alike V.list pairs w v (m.beside others) (n.beside others') := by
  induction halike generalizing others others' with
  | finished hadvance hresult =>
      cases hresult with
      | ok hvalue =>
          apply rebase hadvance
          apply Alike.mapResult (hothers _ _ _ (List.subset_append_left _ _) hadvance.same)
          intro more x y hsub hlist
          cases hlist with
          | ok hvalues => exact .ok (.cons (hlasting _ _ _ _ hsub hvalue) hvalues)
          | error failure => exact .error failure
      | error failure => exact .finished hadvance (.error failure)
  | waiting hadvance hready hrest ih =>
      apply rebase hadvance
      apply besideWaiting hlasting hready
      · intro more later later' c d hsub hsame hcomputations
        exact ih more later later' hsub hsame hcomputations
      · exact hothers _ _ _ (List.subset_append_left _ _) hadvance.same

end Moment.Alike

namespace Computation.AlikeFrom

theorem joinAll (hlasting : V.Lasting) {cs : List (Computation α)} {ds : List (Computation β)}
    (halike : List.Forall₂ (AlikeFrom V pairs) cs ds) :
    AlikeFrom V.list pairs (joinAll cs) (joinAll ds) := by
  induction halike with
  | nil => exact .pure hlasting.list .nil
  | cons hfirst _ ih =>
      intro more w v hsub hsame
      exact (hfirst more w v hsub hsame).beside hlasting (ih.weaken hsub)

end Computation.AlikeFrom
end DecisionLogic
