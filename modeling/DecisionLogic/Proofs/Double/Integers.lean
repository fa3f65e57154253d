import DecisionLogic.Proofs.Double.Value

/-!
# The doubles of integers

An integer of up to 53 bits is a double.  One with 64 bits loses the last eleven of them when it is
made a double: what is left is a significand of 53 bits, rounded to the nearest, times a power of
two.  So the double is the integer itself if its last eleven bits are zero, and another multiple of
2048 if they are not.
-/

namespace DecisionLogic.Double

open Float.Model (UnpackedFloat totalExponent)
open Float.Model.UnpackedFloat (ExtendedMantissa)

/-! ## Rounding -/

theorem mantissa_shiftRight (em : ExtendedMantissa) (places : Nat) :
    (em >>> places).mantissa = em.mantissa / 2 ^ places := by
  induction places with
  | zero => exact (Nat.div_one _).symm
  | succ places ih =>
      change (em >>> places).mantissa / 2 = _
      rw [ih, Nat.div_div_eq_div_mul, ← Nat.pow_succ]

/-- Shifting out zeros loses nothing. -/
theorem shiftRight_of_dvd {n places : Nat} (hdvd : 2 ^ places ∣ n) :
    (⟨n, false, false⟩ : ExtendedMantissa) >>> places = ⟨n / 2 ^ places, false, false⟩ := by
  induction places with
  | zero => exact congrArg (ExtendedMantissa.mk · false false) (Nat.div_one n).symm
  | succ places ih =>
      have heven : n / 2 ^ places % 2 = 0 := by
        obtain ⟨k, rfl⟩ := hdvd
        rw [Nat.pow_succ, Nat.mul_assoc, Nat.mul_div_cancel_left _ (by positivity),
          Nat.mul_mod_right]
      change ((⟨n, false, false⟩ : ExtendedMantissa) >>> places).shiftRightOne = _
      rw [ih ((pow_dvd_pow 2 (Nat.le_succ places)).trans hdvd)]
      simp [ExtendedMantissa.shiftRightOne, heven, Nat.div_div_eq_div_mul, Nat.pow_succ]

theorem roundedMantissa_bounds (em : ExtendedMantissa) :
    em.mantissa ≤ em.roundedMantissa ∧ em.roundedMantissa ≤ em.mantissa + 1 := by
  obtain ⟨mantissa, roundBit, stickyBit⟩ := em
  have hparity := Nat.mod_lt mantissa Nat.two_pos
  cases roundBit with
  | false => cases stickyBit <;> exact ⟨Nat.le_refl _, Nat.le_succ _⟩
  | true =>
      cases stickyBit with
      | false => exact ⟨Nat.le_add_right _ _, Nat.add_le_add_left (by omega) _⟩
      | true => exact ⟨Nat.le_succ _, Nat.le_refl _⟩

/-- The exponent that leaves 53 bits. -/
theorem targetExponent_eq (bits : Nat) {m : Nat} (hlower : 2 ^ bits ≤ m)
    (hupper : m < 2 ^ (bits + 1)) {e : Int} (hnormal : -1022 ≤ bits + e) :
    Float.Model.Format.binary64.targetExponent (totalExponent m e) = bits + e - 52 := by
  have hpos : 0 < m := (Nat.two_pow_pos bits).trans_le hlower
  have hbits : m.log2 = bits := (Nat.log2_eq_iff hpos.ne').mpr ⟨hlower, hupper⟩
  have hmin : Float.Model.Format.binary64.minExponent = -1074 := by decide
  have hmantissa : (Float.Model.Format.binary64.mantissaBits : Int) = 53 := by decide
  rw [Float.Model.Format.targetExponent, totalExponent, hbits, hmin, hmantissa]
  omega

theorem shiftToTargetExponent_eq (bits places : Nat) {m : Nat} (hlower : 2 ^ bits ≤ m)
    (hupper : m < 2 ^ (bits + 1)) {e : Int} (hnormal : -1022 ≤ bits + e)
    (hplaces : bits = 52 + places) :
    UnpackedFloat.shiftToTargetExponent .binary64 m e .exact =
      ((⟨m, false, false⟩ : ExtendedMantissa) >>> places, e + places) := by
  unfold UnpackedFloat.shiftToTargetExponent UnpackedFloat.shiftToExponent
  rw [targetExponent_eq bits hlower hupper hnormal]
  have hshift : ((bits : Int) + e - 52 - e).toNat = places := by omega
  dsimp only
  rw [hshift]
  rfl

/-- A rounded significand of 53 bits is left as it is; one that was rounded up to 54 bits is halved
and its exponent goes up by one. -/
theorem shiftToTargetExponent_rounded {m : Nat} (hlower : 2 ^ 52 ≤ m) (hupper : m ≤ 2 ^ 53)
    {e : Int} (hnormal : -1074 ≤ e) :
    UnpackedFloat.shiftToTargetExponent .binary64 m e .exact =
      if m < 2 ^ 53 then (⟨m, false, false⟩, e) else (⟨2 ^ 52, false, false⟩, e + 1) := by
  split
  next hsmall =>
    have hnormal : -1022 ≤ ((52 : Nat) : Int) + e := by omega
    rw [shiftToTargetExponent_eq 52 0 hlower hsmall hnormal rfl]
    exact congrArg (Prod.mk _) (Int.add_zero e)
  next hgreat =>
    have hnormal : -1022 ≤ ((53 : Nat) : Int) + e := by omega
    obtain rfl : m = 2 ^ 53 := by omega
    exact shiftToTargetExponent_eq 53 1 (Nat.le_refl _) (by decide) hnormal rfl

theorem ofNat_of_pos {n : Nat} (hpos : 0 < n) :
    UnpackedFloat.ofNat .binary64 n = UnpackedFloat.round .binary64 .positive n 0 := by
  have hpositive : compare (n : Int) 0 = .gt := by
    rw [Int.compare_eq_gt]
    omega
  unfold UnpackedFloat.ofNat UnpackedFloat.ofInt UnpackedFloat.normalize
  rw [hpositive]
  exact congrArg (UnpackedFloat.round _ _ · 0) (Int.toNat_natCast n)

theorem ofNat_eq_round {n : Nat} (hlower : 2 ^ 63 ≤ n) (hupper : n < 2 ^ 64) :
    UnpackedFloat.ofNat .binary64 n =
      UnpackedFloat.roundWithAccuracy .binary64 .positive n 0 .exact := by
  have htarget : Float.Model.Format.binary64.targetExponent (totalExponent n 0) = 11 :=
    targetExponent_eq 63 (e := 0) hlower hupper (by decide)
  rw [ofNat_of_pos (by omega)]
  unfold UnpackedFloat.round
  rw [htarget]
  rfl

/-- An integer of 64 bits as a double: a multiple of `2 ^ 11`, and the integer itself if that is
one. -/
theorem ofNat_of_64_bits {n : Nat} (hlower : 2 ^ 63 ≤ n) (hupper : n < 2 ^ 64) :
    ∃ (m e : Nat) (hpos : 0 < m), UnpackedFloat.ofNat .binary64 n = .finite .positive m e hpos ∧
      2 ^ 52 ≤ m ∧ m < 2 ^ 53 ∧ 11 ≤ e ∧ e ≤ 12 ∧ (2 ^ 11 ∣ n → m * 2 ^ e = n) := by
  let first : ExtendedMantissa := (⟨n, false, false⟩ : ExtendedMantissa) >>> 11
  have hfirst : first.mantissa = n / 2 ^ 11 := mantissa_shiftRight _ _
  have hexact : 2 ^ 11 ∣ n → first.roundedMantissa = n / 2 ^ 11 := fun hdvd =>
    congrArg ExtendedMantissa.roundedMantissa (shiftRight_of_dvd hdvd)
  obtain ⟨hdown, hup⟩ := roundedMantissa_bounds first
  rw [hfirst] at hdown hup
  have hshift : UnpackedFloat.shiftToTargetExponent .binary64 n 0 .exact = (first, 11) :=
    shiftToTargetExponent_eq 63 11 (e := 0) hlower hupper (by decide) rfl
  have hround := ofNat_eq_round hlower hupper
  unfold UnpackedFloat.roundWithAccuracy at hround
  rw [hshift] at hround
  dsimp only at hround
  rw [shiftToTargetExponent_rounded (by omega) (by omega) (by decide)] at hround
  by_cases hsmall : first.roundedMantissa < 2 ^ 53
  · rw [if_pos hsmall] at hround
    dsimp only at hround
    rw [dif_neg (by omega)] at hround
    exact ⟨first.roundedMantissa, 11, by omega, hround, by omega, hsmall, by omega, by omega,
      fun hdvd => by rw [hexact hdvd, Nat.div_mul_cancel hdvd]⟩
  · rw [if_neg hsmall] at hround
    exact ⟨2 ^ 52, 12, by decide, hround, by decide, by decide, by decide, by decide,
      fun hdvd => by have := hexact hdvd; omega⟩

/-! ## The doubles of small integers -/

/-- A significand of 53 bits is not rounded. -/
theorem roundWithAccuracy_of_53_bits (s : UnpackedFloat.Sign) {m : Nat} (hpos : 0 < m)
    (hlower : 2 ^ 52 ≤ m) (hupper : m < 2 ^ 53) {e : Int} (hnormal : -1074 ≤ e) :
    UnpackedFloat.roundWithAccuracy .binary64 s m e .exact = .finite s m e hpos := by
  have hshift : UnpackedFloat.shiftToTargetExponent .binary64 m e .exact =
      (⟨m, false, false⟩, e) := by
    rw [shiftToTargetExponent_rounded hlower hupper.le hnormal, if_pos hupper]
  have hrounded : (⟨m, false, false⟩ : ExtendedMantissa).roundedMantissa = m := rfl
  unfold UnpackedFloat.roundWithAccuracy
  rw [hshift]
  dsimp only
  rw [hrounded, hshift]
  exact dif_neg hpos.ne'

/-- An integer of 53 bits is a double: its bits moved to the top of the significand. -/
theorem ofNat_of_53_bits {n : Nat} (hpos : 0 < n) (hsmall : n < 2 ^ 53) :
    ∃ places : Nat, Parts.IsNormal ⟨false, n <<< places, -places⟩ ∧
      UnpackedFloat.ofNat .binary64 n = Parts.unpacked ⟨false, n <<< places, -places⟩ := by
  have hlower : 2 ^ n.log2 ≤ n := Nat.log2_self_le hpos.ne'
  have hupper : n < 2 ^ (n.log2 + 1) := Nat.lt_log2_self
  have hbits : n.log2 < 53 := (Nat.log2_lt hpos.ne').mpr hsmall
  obtain ⟨places, hplaces⟩ : ∃ places, n.log2 + places = 52 := ⟨52 - n.log2, by omega⟩
  have hleast : 2 ^ 52 ≤ n <<< places := by
    rw [Nat.shiftLeft_eq, ← hplaces, Nat.pow_add]
    exact Nat.mul_le_mul_right _ hlower
  have hgreatest : n <<< places < 2 ^ 53 := by
    have hbound : n * 2 ^ places < 2 ^ (n.log2 + 1) * 2 ^ places :=
      Nat.mul_lt_mul_of_pos_right hupper (Nat.two_pow_pos places)
    rw [← Nat.pow_add, Nat.add_right_comm, hplaces] at hbound
    rwa [Nat.shiftLeft_eq]
  have hnormal : Parts.IsNormal ⟨false, n <<< places, -places⟩ :=
    ⟨hleast, hgreatest, by dsimp only; omega, by dsimp only; omega⟩
  refine ⟨places, hnormal, ?_⟩
  have htarget : Float.Model.Format.binary64.targetExponent (totalExponent n 0) = -places := by
    rw [targetExponent_eq n.log2 hlower hupper (by omega)]
    omega
  have hshift : UnpackedFloat.decreaseExponent n 0 (-places) = (n <<< places, -(places : Int)) := by
    simp [UnpackedFloat.decreaseExponent]
  have hround : UnpackedFloat.round .binary64 .positive n 0 =
      UnpackedFloat.roundWithAccuracy .binary64 .positive
        (UnpackedFloat.decreaseExponent n 0 (Float.Model.Format.binary64.targetExponent
          (totalExponent n 0))).1
        (UnpackedFloat.decreaseExponent n 0 (Float.Model.Format.binary64.targetExponent
          (totalExponent n 0))).2 .exact := rfl
  rw [ofNat_of_pos hpos, hnormal.unpacked_eq, hround, htarget, hshift]
  exact roundWithAccuracy_of_53_bits .positive hnormal.pos hleast hgreatest (by omega)

/-! ## Parts -/

theorem toFloat_eq_pack {n : Nat} (hword : n < 2 ^ 64) :
    n.toUInt64.toFloat = .ofModel (Float.Model.pack (UnpackedFloat.ofNat .binary64 n)) := by
  have hsame : n.toUInt64.toNat = n := by
    rw [Nat.toUInt64_eq, UInt64.toNat_ofNat']
    exact Nat.mod_eq_of_lt hword
  change Float.ofModel (Float.Model.pack (UnpackedFloat.ofNat .binary64 n.toUInt64.toNat)) = _
  rw [hsame]

/-- The double of an integer of 64 bits is a whole multiple of `2 ^ 11`, and the integer itself if
that is one. -/
theorem parts_toFloat {n : Nat} (hlower : 2 ^ 63 ≤ n) (hupper : n < 2 ^ 64) :
    ∃ m e : Nat, parts n.toUInt64.toFloat = ⟨false, m, e⟩ ∧ m < 2 ^ 53 ∧ 11 ≤ e ∧ e ≤ 12 ∧
      (2 ^ 11 ∣ n → m * 2 ^ e = n) := by
  obtain ⟨m, e, hpos, hdouble, hlow, hhigh, heleven, htwelve, hexact⟩ :=
    ofNat_of_64_bits hlower hupper
  have hnormal : Parts.IsNormal ⟨false, m, e⟩ :=
    ⟨hlow, hhigh, by dsimp only; omega, by dsimp only; omega⟩
  have hmodel : n.toUInt64.toFloat =
      .ofModel (Float.Model.pack (Parts.unpacked ⟨false, m, e⟩)) := by
    rw [toFloat_eq_pack hupper, hdouble, hnormal.unpacked_eq]
    rfl
  exact ⟨m, e, hmodel ▸ parts_pack hnormal, hhigh, heleven, htwelve, hexact⟩

theorem parts_toFloat_of_small {n : Nat} (hpos : 0 < n) (hsmall : n < 2 ^ 53) :
    ∃ places : Nat, Parts.IsNormal ⟨false, n <<< places, -places⟩ ∧
      parts n.toUInt64.toFloat = ⟨false, n <<< places, -places⟩ := by
  obtain ⟨places, hnormal, hdouble⟩ := ofNat_of_53_bits hpos hsmall
  refine ⟨places, hnormal, ?_⟩
  rw [toFloat_eq_pack (by omega), hdouble]
  exact parts_pack hnormal

/-- An integer of 53 bits is the value of its double. -/
theorem value_toFloat_of_small {n : Nat} (hpos : 0 < n) (hsmall : n < 2 ^ 53) :
    value n.toUInt64.toFloat = n := by
  obtain ⟨places, hnormal, hparts⟩ := parts_toFloat_of_small hpos hsmall
  have hfinite := isFinite_of_isNormal (hparts ▸ hnormal)
  rw [value_of_isFinite hfinite, hparts, if_neg Bool.false_ne_true]
  unfold Parts.magnitude
  rw [Nat.shiftLeft_eq, zpow_neg, zpow_natCast]
  push_cast
  rw [mul_assoc, mul_inv_cancel₀ (by positivity), mul_one]

end DecisionLogic.Double
