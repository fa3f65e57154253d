import DecisionLogic.Proofs.Alike.Moment
import Mathlib.Algebra.Group.Nat.Defs

/-!
# Numbers drawn in order

Both supplies only count up, so corresponding numbers are in the same order on both sides.  As long
as neither supply has started over, corresponding identifiers are therefore paired off one to one.
-/

namespace DecisionLogic

def PointId.count : Nat :=
  2 ^ 128

theorem PointId.fresh_injective {m n : Nat} (hm : m < PointId.count) (hn : n < PointId.count)
    (hfresh : PointId.fresh m = PointId.fresh n) : m = n := by
  have hvalue := congrArg (fun id => id.value.toNat) hfresh
  simp only [PointId.fresh, BitVec.toNat_ofNat] at hvalue
  unfold PointId.count at hm hn
  rwa [Nat.mod_eq_of_lt hm, Nat.mod_eq_of_lt hn] at hvalue

/-- The pairs rise on both sides, up to the next numbers `m` and `n` of the supplies. -/
structure Pairing.Increasing (pairs : Pairing) (m n : Nat) : Prop where
  rising : pairs.Pairwise fun p q => p.1 < q.1 ∧ p.2 < q.2
  below : ∀ p ∈ pairs, p.1 < m ∧ p.2 < n

namespace Pairing.Increasing

variable {pairs : Pairing} {m n : Nat}

theorem nil (m n : Nat) : Increasing [] m n :=
  ⟨.nil, by simp⟩

theorem mono {m' n' : Nat} (hincreasing : pairs.Increasing m n) (hm : m ≤ m') (hn : n ≤ n') :
    pairs.Increasing m' n' := by
  refine ⟨hincreasing.rising, ?_⟩
  intro p hp
  have hbelow := hincreasing.below p hp
  exact ⟨Nat.lt_of_lt_of_le hbelow.1 hm, Nat.lt_of_lt_of_le hbelow.2 hn⟩

theorem append_nextPairs {w v : World} (hincreasing : pairs.Increasing w.nextPoint v.nextPoint)
    (count : Nat) :
    (pairs ++ World.nextPairs w v count).Increasing (w.nextPoint + count)
      (v.nextPoint + count) := by
  have hnext : ∀ p ∈ World.nextPairs w v count,
      ∃ i, i < count ∧ p = (w.nextPoint + i, v.nextPoint + i) := by
    intro p hp
    obtain ⟨i, hi, rfl⟩ := List.mem_map.mp hp
    exact ⟨i, List.mem_range.mp hi, rfl⟩
  constructor
  · rw [List.pairwise_append]
    refine ⟨hincreasing.rising, ?_, ?_⟩
    · unfold World.nextPairs
      rw [List.pairwise_map]
      apply List.pairwise_lt_range.imp
      intro i j hlt
      exact ⟨Nat.add_lt_add_left hlt _, Nat.add_lt_add_left hlt _⟩
    · intro p hp q hq
      have hbelow := hincreasing.below p hp
      obtain ⟨i, -, rfl⟩ := hnext q hq
      dsimp only
      omega
  · intro p hp
    rcases List.mem_append.mp hp with hold | hnew
    · have hbelow := hincreasing.below p hold
      omega
    · obtain ⟨i, hi, rfl⟩ := hnext p hnew
      dsimp only
      omega

theorem eq_of_mem (hincreasing : pairs.Increasing m n) {p q : Nat × Nat} (hp : p ∈ pairs)
    (hq : q ∈ pairs) (hagree : p.1 = q.1 ∨ p.2 = q.2) : p = q := by
  have hapart : ∀ p ∈ pairs, ∀ q ∈ pairs, p.1 = q.1 ∨ p.2 = q.2 → p = q := by
    apply List.Pairwise.forall_of_forall_of_flip
    · intro p _ _
      rfl
    · apply hincreasing.rising.imp
      intro p q hlt hagree
      omega
    · apply hincreasing.rising.imp
      intro p q hlt hagree
      omega
  exact hapart p hp q hq hagree

theorem ids_functional (hincreasing : pairs.Increasing m n) (hm : m ≤ PointId.count)
    {a b c : PointId} (hab : pairs.Ids a b) (hac : pairs.Ids a c) : b = c := by
  obtain ⟨i, j, hij, rfl, rfl⟩ := hab
  obtain ⟨i', k, hik, hfresh, rfl⟩ := hac
  have hi := Nat.lt_of_lt_of_le (hincreasing.below _ hij).1 hm
  have hi' := Nat.lt_of_lt_of_le (hincreasing.below _ hik).1 hm
  have hpair := hincreasing.eq_of_mem hij hik (.inl (PointId.fresh_injective hi hi' hfresh))
  rw [(Prod.mk.inj hpair).2]

theorem ids_injective (hincreasing : pairs.Increasing m n) (hn : n ≤ PointId.count)
    {a b c : PointId} (hac : pairs.Ids a c) (hbc : pairs.Ids b c) : a = b := by
  obtain ⟨i, k, hik, rfl, rfl⟩ := hac
  obtain ⟨j, k', hjk, rfl, hfresh⟩ := hbc
  have hk := Nat.lt_of_lt_of_le (hincreasing.below _ hik).2 hn
  have hk' := Nat.lt_of_lt_of_le (hincreasing.below _ hjk).2 hn
  have hpair := hincreasing.eq_of_mem hik hjk (.inr (PointId.fresh_injective hk hk' hfresh))
  rw [(Prod.mk.inj hpair).1]

end Pairing.Increasing
end DecisionLogic
