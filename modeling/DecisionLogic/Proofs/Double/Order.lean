import Mathlib
import DecisionLogic.Standard.Relation

/-!
# The order of doubles

Doubles are compared by the order of their unpacked forms, in which a NaN stands beside everything
else.  Turning a comparison around reverses its result, and every double but a NaN equals itself.
-/

namespace DecisionLogic

open Float.Model (UnpackedFloat)

namespace Double

/-! ## Unpacked forms -/

theorem compare_sign_swap (s t : UnpackedFloat.Sign) : compare t s = (compare s t).swap := by
  cases s <;> cases t <;> rfl

theorem compare_swap (a b : UnpackedFloat) : b.compare a = (a.compare b).map Ordering.swap := by
  cases a with
  | notANumber => cases b <;> rfl
  | infinity s =>
      cases b with
      | infinity t => exact congrArg some (compare_sign_swap s t)
      | notANumber | zero | finite => cases s <;> rfl
  | zero s =>
      cases b with
      | infinity t | finite t => cases t <;> rfl
      | notANumber | zero => rfl
  | finite s m e _ =>
      have hparts (m' : Nat) (e' : Int) :
          (compare e' e).then (compare m' m) = ((compare e e').then (compare m m')).swap := by
        rw [Ordering.swap_then, Int.compare_swap, Nat.compare_swap]
      cases b with
      | infinity t => cases t <;> rfl
      | notANumber => rfl
      | zero => cases s <;> rfl
      | finite t m' e' _ =>
          cases s with
          | negative =>
              cases t with
              | negative => exact congrArg (some ·.swap) (hparts m' e')
              | positive => rfl
          | positive =>
              cases t with
              | negative => rfl
              | positive => exact congrArg some (hparts m' e')

theorem isNaN_of_components {format : Float.Model.Format} {s : UnpackedFloat.Sign}
    {exponent : BitVec format.exponentBits} {mantissa : BitVec format.mantissaBitsWithoutImplicit}
    (hbits : exponent = -1#_ → mantissa = 0#_) :
    (UnpackedFloat.unpack format
      (UnpackedFloat.packComponents format s exponent mantissa)).isNaN = false := by
  have hmantissa : exponent = -1#_ → UnpackedFloat.unpackMantissa
      (UnpackedFloat.packComponents format s exponent mantissa) = 0#_ := by
    rw [UnpackedFloat.unpackMantissa_packComponents]
    exact hbits
  unfold UnpackedFloat.unpack
  dsimp only
  split
  next hexponent =>
    rw [UnpackedFloat.unpackExponent_packComponents] at hexponent
    rw [if_pos (hmantissa hexponent)]
    rfl
  next =>
    split
    · split
      · rfl
      · rfl
    · rfl

/-- Packing makes a NaN of nothing else. -/
theorem isNaN_unpack_pack (u : UnpackedFloat) : (Float.Model.pack u).unpack.isNaN = u.isNaN := by
  cases u with
  | notANumber => decide
  | infinity s => exact isNaN_of_components fun _ => rfl
  | zero s => exact isNaN_of_components fun h => absurd h (by decide)
  | finite s m e hm =>
      change (UnpackedFloat.unpack .binary64
        (UnpackedFloat.pack .binary64 (.finite s m e hm))).isNaN = false
      unfold UnpackedFloat.pack
      dsimp only
      split
      · exact isNaN_of_components fun _ => rfl
      next hsmall =>
        split
        · refine isNaN_of_components fun h => ?_
          have hnat := congrArg BitVec.toNat h
          simp at hnat hsmall
          omega
        · exact isNaN_of_components fun h => absurd h (by decide)

theorem isNaN_normalize (format : Float.Model.Format) (n : Int) :
    (UnpackedFloat.normalize format n 0 .positive).isNaN = false := by
  have hround (s : UnpackedFloat.Sign) (m : Nat) :
      (UnpackedFloat.round format s m 0).isNaN = false := by
    unfold UnpackedFloat.round UnpackedFloat.roundWithAccuracy
    dsimp only
    split
    · rfl
    · rfl
  unfold UnpackedFloat.normalize
  split
  · exact hround _ _
  · rfl
  · exact hround _ _

theorem isNaN_neg (x : Float) : (-x).isNaN = x.isNaN := by
  have hneg : x.toModel.unpack.neg.isNaN = x.toModel.unpack.isNaN := by
    cases x.toModel.unpack with
    | notANumber | infinity | zero | finite => rfl
  exact (isNaN_unpack_pack _).trans hneg

end Double

/-- The double that is read for a number is equal to itself. -/
theorem Number.toFloat_beq_self (n : Number) : (n.toFloat == n.toFloat) = true := by
  have hnumber : n.toFloat.isNaN = false := by
    cases n with
    | integer i =>
        have hword (word : UInt64) : word.toFloat.isNaN = false :=
          (Double.isNaN_unpack_pack _).trans (Double.isNaN_normalize _ _)
        unfold toFloat WideInt.toFloat
        dsimp only
        split
        · exact hword _
        · exact (Double.isNaN_neg _).trans (hword _)
    | double x =>
        have hfinite : x.val.toModel.unpack.isFinite = true := x.finite
        change x.val.toModel.unpack.isNaN = false
        cases hunpack : x.val.toModel.unpack with
        | notANumber => simp [hunpack, UnpackedFloat.isFinite] at hfinite
        | infinity | zero | finite => rfl
  rw [Float.beq_self_iff]
  simpa using hnumber

namespace Standard

theorem compareNumbers_eq (x y : Float) :
    compareNumbers x y = x.toModel.unpack.compare y.toModel.unpack := by
  have hless (x y : Float) : x < y ↔ x.toModel.unpack.compare y.toModel.unpack = some .lt := by
    change decide (x.toModel < y.toModel) = true ↔ _
    rw [decide_eq_true_iff]
    exact beq_iff_eq
  have hequal : (x == y) = true ↔ x.toModel.unpack.compare y.toModel.unpack = some .eq := by
    change (x.toModel.unpack.compare y.toModel.unpack == some .eq) = true ↔ _
    rw [beq_iff_eq]
  have hgreater : y < x ↔ x.toModel.unpack.compare y.toModel.unpack = some .gt := by
    rw [hless, Double.compare_swap, Option.map_eq_some_iff]
    constructor
    · rintro ⟨order, horder, hswap⟩
      rw [horder, ← Ordering.swap_swap (o := order), hswap]
      rfl
    · exact fun horder => ⟨.gt, horder, rfl⟩
  unfold compareNumbers
  simp only [hgreater, hequal, hless x y]
  cases x.toModel.unpack.compare y.toModel.unpack with
  | none => rfl
  | some order => cases order <;> rfl

end Standard
end DecisionLogic
