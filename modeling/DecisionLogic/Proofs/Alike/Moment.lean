import DecisionLogic.Proofs.Alike.Evaluation
import DecisionLogic.Computation.Lemmas
import DecisionLogic.Operator.Input
import Mathlib.Data.List.Basic

/-!
# Computations that cannot be told apart

Two computations are alike when, polled side by side in worlds with the same bag and the same
token, they wait and finish together, leave the same bag and token behind, call the same added
operators and draw equally many numbers from their supplies.  The results may differ in the numbers
drawn; a `Pairing` lists which number of one run corresponds to which of the other.
-/

namespace DecisionLogic

/-! ## Numbers drawn side by side -/

/-- Corresponding numbers of two supplies, in the order in which they were drawn. -/
abbrev Pairing : Type :=
  List (Nat × Nat)

def Pairing.Ids (pairs : Pairing) (a b : PointId) : Prop :=
  ∃ m n, (m, n) ∈ pairs ∧ a = .fresh m ∧ b = .fresh n

theorem Pairing.subset_of_append {pairs drawn more : Pairing} (hsub : pairs ++ drawn ⊆ more) :
    pairs ⊆ more :=
  (List.append_subset.mp hsub).1

theorem Pairing.Ids.mono {pairs more : Pairing} (hsub : pairs ⊆ more) (a b : PointId)
    (hids : pairs.Ids a b) : more.Ids a b := by
  obtain ⟨m, n, hmem, ha, hb⟩ := hids
  exact ⟨m, n, hsub hmem, ha, hb⟩

namespace World

/-- The worlds agree in what belongs to the invocation. -/
structure Same (w v : World) : Prop where
  bag : w.bag = v.bag
  cancelled : w.cancelled = v.cancelled

def nextPairs (w v : World) (count : Nat) : Pairing :=
  (List.range count).map fun i => (w.nextPoint + i, v.nextPoint + i)

/-- From `w` to `w'` the first run does what the second one does from `v` to `v'`: it calls the same
added operators and draws as many numbers, `count`. -/
structure Abreast (w v w' v' : World) (count : Nat) : Prop where
  left : w'.nextPoint = w.nextPoint + count
  right : v'.nextPoint = v.nextPoint + count
  calls : ∃ a b, w'.trace = a ++ w.trace ∧ v'.trace = b ++ v.trace ∧
    a.filter (fun invocation => invocation.origin = .custom) =
      b.filter fun invocation => invocation.origin = .custom

structure Advance (w v w' v' : World) (count : Nat) : Prop extends Abreast w v w' v' count where
  same : w'.Same v'

theorem Abreast.refl (w v : World) : Abreast w v w v 0 :=
  ⟨rfl, rfl, [], [], rfl, rfl, rfl⟩

theorem Abreast.trans {w v w' v' w'' v'' : World} {m n : Nat} (hfirst : Abreast w v w' v' m)
    (hsecond : Abreast w' v' w'' v'' n) : Abreast w v w'' v'' (m + n) := by
  obtain ⟨a, b, hw, hv, hab⟩ := hfirst.calls
  obtain ⟨c, d, hw', hv', hcd⟩ := hsecond.calls
  refine ⟨?_, ?_, c ++ a, d ++ b, ?_, ?_, ?_⟩
  · rw [hsecond.left, hfirst.left, Nat.add_assoc]
  · rw [hsecond.right, hfirst.right, Nat.add_assoc]
  · rw [hw', hw, List.append_assoc]
  · rw [hv', hv, List.append_assoc]
  · rw [List.filter_append, List.filter_append, hab, hcd]

theorem Advance.refl {w v : World} (hsame : w.Same v) : Advance w v w v 0 :=
  ⟨.refl w v, hsame⟩

theorem Advance.trans {w v w' v' w'' v'' : World} {m n : Nat} (hfirst : Advance w v w' v' m)
    (hsecond : Advance w' v' w'' v'' n) : Advance w v w'' v'' (m + n) :=
  ⟨hfirst.toAbreast.trans hsecond.toAbreast, hsecond.same⟩

theorem nextPairs_add {w v w' v' : World} {m : Nat} (hadvance : Abreast w v w' v' m) (n : Nat) :
    nextPairs w v (m + n) = nextPairs w v m ++ nextPairs w' v' n := by
  unfold nextPairs
  rw [List.range_add, List.map_append, List.map_map, hadvance.left, hadvance.right]
  congr 1
  apply List.map_congr_left
  intro i _
  simp [Nat.add_assoc]

end World

/-! ## Moments and computations -/

/-- What it takes for results of two runs to correspond, given the numbers drawn. -/
abbrev Likeness (α β : Type) : Type :=
  Pairing → α → β → Prop

def Likeness.Lasting {α β : Type} (V : Likeness α β) : Prop :=
  ∀ pairs more x y, pairs ⊆ more → V pairs x y → V more x y

inductive ResultAlike {α β : Type} (V : α → β → Prop) : Except Failure α → Except Failure β → Prop
  | ok {x : α} {y : β} (hvalue : V x y) : ResultAlike V (.ok x) (.ok y)
  | error (failure : Failure) : ResultAlike V (.error failure) (.error failure)

inductive Moment.Alike {α β : Type} (V : Likeness α β) :
    Pairing → World → World → Moment α → Moment β → Prop
  | finished {pairs : Pairing} {w v w' v' : World} {count : Nat} {x : Except Failure α}
      {y : Except Failure β} (hadvance : World.Advance w v w' v' count)
      (hresult : ResultAlike (V (pairs ++ World.nextPairs w v count)) x y) :
      Alike V pairs w v (.finished w' x) (.finished v' y)
  | waiting {pairs : Pairing} {w v w' v' : World} {count : Nat} {ready ready' : World → Bool}
      {rest : World → Moment α} {rest' : World → Moment β}
      (hadvance : World.Advance w v w' v' count)
      (hready : ∀ later later' : World, later.Same later' → ready later = ready' later')
      (hrest : ∀ (more : Pairing) (later later' : World),
        pairs ++ World.nextPairs w v count ⊆ more → later.Same later' →
          Alike V more later later' (rest later) (rest' later')) :
      Alike V pairs w v (.waiting w' ready rest) (.waiting v' ready' rest')

def Computation.AlikeFrom {α β : Type} (V : Likeness α β) (pairs : Pairing)
    (c : Computation α) (d : Computation β) : Prop :=
  ∀ (more : Pairing) (w v : World), pairs ⊆ more → w.Same v →
    Moment.Alike V more w v (c w) (d v)

namespace Moment.Alike

variable {α β γ δ : Type} {V : Likeness α β} {U : Likeness γ δ} {pairs : Pairing}
  {w v w' v' : World} {m : Moment α} {n : Moment β}

theorem rebase {count : Nat} (hadvance : World.Advance w v w' v' count)
    (halike : Alike V (pairs ++ World.nextPairs w v count) w' v' m n) :
    Alike V pairs w v m n := by
  cases halike with
  | finished hlater hresult =>
      refine .finished (hadvance.trans hlater) ?_
      rw [World.nextPairs_add hadvance.toAbreast, ← List.append_assoc]
      exact hresult
  | waiting hlater hready hrest =>
      refine .waiting (hadvance.trans hlater) hready ?_
      rw [World.nextPairs_add hadvance.toAbreast, ← List.append_assoc]
      exact hrest

theorem andThen {f : α → Computation γ} {g : β → Computation δ} (halike : Alike V pairs w v m n)
    (hnext : ∀ (more : Pairing) (x : α) (y : β), pairs ⊆ more → V more x y →
      Computation.AlikeFrom U more (f x) (g y)) :
    Alike U pairs w v (m.andThen f) (n.andThen g) := by
  induction halike with
  | finished hadvance hresult =>
      cases hresult with
      | ok hvalue =>
          apply rebase hadvance
          exact hnext _ _ _ (List.subset_append_left _ _) hvalue _ _ _ (List.Subset.refl _)
            hadvance.same
      | error failure => exact .finished hadvance (.error failure)
  | waiting hadvance hready hrest ih =>
      refine .waiting hadvance hready ?_
      intro more later later' hsub hsame
      apply ih more later later' hsub hsame
      intro more' x y hsub' hvalue
      exact hnext more' x y (List.Subset.trans (Pairing.subset_of_append hsub) hsub') hvalue

theorem mapResult {f : Except Failure α → Except Failure γ} {g : Except Failure β → Except Failure δ}
    (halike : Alike V pairs w v m n)
    (hmap : ∀ (more : Pairing) x y, pairs ⊆ more → ResultAlike (V more) x y →
      ResultAlike (U more) (f x) (g y)) :
    Alike U pairs w v (m.mapResult f) (n.mapResult g) := by
  induction halike with
  | finished hadvance hresult =>
      exact .finished hadvance (hmap _ _ _ (List.subset_append_left _ _) hresult)
  | waiting hadvance hready hrest ih =>
      refine .waiting hadvance hready ?_
      intro more later later' hsub hsame
      apply ih more later later' hsub hsame
      intro more' x y hsub'
      exact hmap more' x y (List.Subset.trans (Pairing.subset_of_append hsub) hsub')

theorem guarded (halike : Alike V pairs w v m n) : Alike V pairs w v m.guarded n.guarded := by
  induction halike with
  | finished hadvance hresult => exact .finished hadvance hresult
  | waiting hadvance hready hrest ih =>
      refine .waiting hadvance ?_ ?_
      · intro later later' hsame
        rw [hsame.cancelled, hready later later' hsame]
      · intro more later later' hsub hsame
        rw [hsame.cancelled]
        split
        · exact .finished (.refl hsame) (.error .cancelled)
        · exact ih more later later' hsub hsame

/-- Later polls keep the moments alike; one that comes too early leaves both waiting. -/
theorem poll (hlasting : V.Lasting) (halike : Alike V pairs w v m n) :
    ∃ count, World.Advance w v m.world n.world count ∧
      ∀ (more : Pairing) (later later' : World), pairs ++ World.nextPairs w v count ⊆ more →
        later.Same later' → Alike V more later later' (m.poll later) (n.poll later') := by
  cases halike with
  | finished hadvance hresult =>
      refine ⟨_, hadvance, ?_⟩
      intro more later later' hsub hsame
      refine .finished (.refl hsame) ?_
      cases hresult with
      | ok hvalue =>
          exact .ok (hlasting _ _ _ _ (List.Subset.trans hsub (List.subset_append_left _ _)) hvalue)
      | error failure => exact .error failure
  | waiting hadvance hready hrest =>
      refine ⟨_, hadvance, ?_⟩
      intro more later later' hsub hsame
      simp only [Moment.poll, hready later later' hsame]
      split
      · exact hrest more later later' hsub hsame
      · refine .waiting (.refl hsame) hready ?_
        intro more' next next' hsub' hsame'
        exact hrest more' next next' (List.Subset.trans hsub (Pairing.subset_of_append hsub')) hsame'

end Moment.Alike
end DecisionLogic
