import DecisionLogic.Proofs.Double.Parts

/-!
# The value of a double

A finite double stands for a rational number.  What its parts are truncated to is the integral part
of that number, and an integral part of more than 63 bits ends in eleven zeros.
-/

namespace DecisionLogic.Double

open Float.Model (UnpackedFloat)

/-! ## Values -/

/-- The number that an unpacked double stands for; zero for an infinity or a NaN. -/
def unpackedValue : UnpackedFloat → ℚ
  | .finite .positive m e _ => m * 2 ^ e
  | .finite .negative m e _ => -(m * 2 ^ e)
  | _ => 0

/-- The number that a finite double stands for. -/
def value (x : Float) : ℚ :=
  unpackedValue x.toModel.unpack

/-- A number without its fraction: rounded toward zero. -/
def integralPart (q : ℚ) : ℤ :=
  if q < 0 then ⌈q⌉ else ⌊q⌋

def Parts.magnitude (p : Parts) : ℚ :=
  p.significand * 2 ^ p.exponent

theorem Parts.magnitude_nonneg (p : Parts) : 0 ≤ p.magnitude := by
  unfold magnitude
  positivity

theorem unpackedValue_unpacked (p : Parts) :
    unpackedValue p.unpacked = if p.negative then -p.magnitude else p.magnitude := by
  obtain ⟨negative, m, e⟩ := p
  unfold Parts.unpacked Parts.magnitude
  dsimp only
  split
  next hpos => cases negative <;> rfl
  next hzero =>
    obtain rfl : m = 0 := by omega
    simp [unpackedValue]

theorem value_of_isFinite {x : Float} (hfinite : x.isFinite = true) :
    value x = if (parts x).negative then -(parts x).magnitude else (parts x).magnitude := by
  unfold value
  rw [unpack_of_isFinite hfinite, unpackedValue_unpacked]

theorem value_neg {x : Float} (hnormal : (parts x).IsNormal) : value (-x) = -value x := by
  have hneg := parts_neg hnormal
  have hfinite : (-x).isFinite = true := isFinite_of_isNormal (hneg ▸ hnormal.negated)
  have hmagnitude : (parts x).negated.magnitude = (parts x).magnitude := rfl
  rw [value_of_isFinite hfinite, value_of_isFinite (isFinite_of_isNormal hnormal), hneg, hmagnitude]
  unfold Parts.negated
  cases (parts x).negative with
  | false => rfl
  | true => exact (neg_neg _).symm

/-! ## Integral parts -/

theorem Parts.floor_magnitude (p : Parts) : ⌊p.magnitude⌋ = p.floor := by
  unfold magnitude floor
  by_cases hwhole : 0 ≤ p.exponent
  · obtain ⟨places, hplaces⟩ := Int.eq_ofNat_of_zero_le hwhole
    rw [if_pos hwhole, hplaces, Nat.shiftLeft_eq, zpow_natCast, Int.toNat_natCast]
    exact_mod_cast Int.floor_natCast (p.significand * 2 ^ places)
  · obtain ⟨places, hplaces⟩ : ∃ places : Nat, p.exponent = -places :=
      ⟨p.exponent.natAbs, by omega⟩
    have hquotient := Rat.floor_intCast_div_natCast p.significand (2 ^ places)
    rw [if_neg hwhole, hplaces, Nat.shiftRight_eq_div_pow, zpow_neg, zpow_natCast, neg_neg,
      Int.toNat_natCast, ← div_eq_mul_inv]
    push_cast at hquotient ⊢
    exact hquotient

theorem integralPart_of_nonneg {q : ℚ} (hq : 0 ≤ q) : integralPart q = ⌊q⌋ :=
  if_neg hq.not_gt

theorem integralPart_intCast (n : ℤ) : integralPart n = n := by
  unfold integralPart
  split
  next => exact Int.ceil_intCast n
  next => exact Int.floor_intCast n

theorem integralPart_neg {q : ℚ} (hq : 0 ≤ q) : integralPart (-q) = -⌊q⌋ := by
  unfold integralPart
  split
  next => exact Int.ceil_neg
  next hzero =>
    obtain rfl : q = 0 := by linarith
    simp

theorem truncate_parts {x : Float} (hfinite : x.isFinite = true) :
    (parts x).truncate = integralPart (value x) := by
  have hnonneg := (parts x).magnitude_nonneg
  rw [value_of_isFinite hfinite, Parts.truncate, ← Parts.floor_magnitude]
  split
  next => exact (integralPart_neg hnonneg).symm
  next => exact (integralPart_of_nonneg hnonneg).symm

theorem Parts.dvd_floor {p : Parts} (hsignificand : p.significand < 2 ^ 53)
    (hgreat : 2 ^ 63 ≤ p.floor) : 2 ^ 11 ∣ p.floor := by
  unfold floor at hgreat ⊢
  split at hgreat
  next hwhole =>
    rw [Nat.shiftLeft_eq] at hgreat
    have hplaces : 11 ≤ p.exponent.toNat := by
      by_contra hfew
      have hpower : 2 ^ p.exponent.toNat ≤ 2 ^ 10 := Nat.pow_le_pow_right (by decide) (by omega)
      have hproduct := Nat.mul_lt_mul_of_lt_of_le hsignificand hpower (by decide)
      omega
    rw [if_pos hwhole, Nat.shiftLeft_eq]
    exact (pow_dvd_pow 2 hplaces).mul_left _
  next hfraction =>
    have hless := Nat.shiftRight_le p.significand (-p.exponent).toNat
    omega

/-- A double whose integral part has more than 63 bits is a multiple of `2 ^ 11`. -/
theorem dvd_integralPart {x : Float} (hfinite : x.isFinite = true)
    (hgreat : 2 ^ 63 ≤ (integralPart (value x)).natAbs) : 2 ^ 11 ∣ integralPart (value x) := by
  have habs : (integralPart (value x)).natAbs = (parts x).floor := by
    rw [← truncate_parts hfinite]
    unfold Parts.truncate
    split
    · rw [Int.natAbs_neg, Int.natAbs_natCast]
    · rw [Int.natAbs_natCast]
  have hfloor := Parts.dvd_floor (significand_lt x) (habs ▸ hgreat)
  rw [← habs] at hfloor
  exact Int.natCast_dvd.mpr hfloor

end DecisionLogic.Double
