import DecisionLogic.Proofs.Comparison.Coherence
import DecisionLogic.Proofs.Double.Integers
import DecisionLogic.Proofs.Double.Value

/-!
# Exclusive or of 32-bit words

A value is read as a word of 32 bits by way of the integral part of its numeric reading.  The word
is congruent to an integral part of 64 bits; greater ones are all read as minus one and lesser ones
as zero, which the exclusive or does not notice: it combines words, and a word is read back as
itself.
-/

namespace DecisionLogic

/-! ## Integers read back -/

theorem WideInt.value_toFloat {i : WideInt} (hsmall : i.val.natAbs < 2 ^ 53) :
    i.toFloat.isFinite = true ∧ Double.value i.toFloat = i.val := by
  have hnormal {n : Nat} (hpos : 0 < n) (hsmall : n < 2 ^ 53) :
      (Double.parts n.toUInt64.toFloat).IsNormal := by
    obtain ⟨places, hnormal, hparts⟩ := Double.parts_toFloat_of_small hpos hsmall
    exact hparts ▸ hnormal
  unfold toFloat
  rcases lt_trichotomy i.val 0 with hnegative | hzero | hpositive
  · have hpos : 0 < (-i.val).toNat := by omega
    have hparts := hnormal hpos (by omega)
    have hnatural : -((-i.val).toNat : Int) = i.val := by omega
    rw [if_neg hnegative.not_ge, Double.value_neg hparts,
      Double.value_toFloat_of_small hpos (by omega)]
    refine ⟨Double.isFinite_of_isNormal ?_, by exact_mod_cast hnatural⟩
    exact Double.parts_neg hparts ▸ hparts.negated
  · have hvalue : Double.value (0 : Int).toNat.toUInt64.toFloat = 0 := by
      have hparts : Double.parts (0 : Int).toNat.toUInt64.toFloat = ⟨false, 0, -1074⟩ := by
        decide +kernel
      rw [Double.value_of_isFinite (by decide +kernel), hparts]
      simp [Double.Parts.magnitude]
    rw [hzero, if_pos le_rfl, hvalue]
    exact ⟨by decide +kernel, Int.cast_zero.symm⟩
  · have hpos : 0 < i.val.toNat := by omega
    have hnatural : (i.val.toNat : Int) = i.val := by omega
    rw [if_pos hpositive.le, Double.value_toFloat_of_small hpos (by omega)]
    exact ⟨Double.isFinite_of_isNormal (hnormal hpos (by omega)), by exact_mod_cast hnatural⟩

namespace Standard

/-! ## Words -/

/-- The integral part of the number that a value is read as. -/
def wholeReading (value : Json) : ℤ :=
  Double.integralPart (Double.value (toNumber value))

variable {a b c : Json}

theorem toInt32_of_unread (hunread : (toNumber a).isFinite = false) : toInt32 a = 0 := by
  unfold toInt32
  dsimp only
  rw [hunread]
  exact if_neg Bool.false_ne_true

/-- The integral part goes through 64 bits. -/
theorem toInt32_of_isFinite (hfinite : (toNumber a).isFinite = true) :
    toInt32 a = .ofInt (max (-0x8000000000000000) (min 0x7fffffffffffffff (wholeReading a))) := by
  unfold toInt32 wholeReading
  dsimp only
  rw [hfinite, if_pos rfl, Double.truncate_parts hfinite]

theorem toInt32_of_64_bits (hfinite : (toNumber a).isFinite = true)
    (hlower : -2 ^ 63 ≤ wholeReading a) (hupper : wholeReading a < 2 ^ 63) :
    toInt32 a = .ofInt (wholeReading a) := by
  rw [toInt32_of_isFinite hfinite, min_eq_right (by omega), max_eq_right (by omega)]

theorem toInt32_of_greater (hfinite : (toNumber a).isFinite = true)
    (hgreater : 2 ^ 63 ≤ wholeReading a) : toInt32 a = -1 := by
  rw [toInt32_of_isFinite hfinite, min_eq_left (by omega)]
  rfl

theorem toInt32_of_less (hfinite : (toNumber a).isFinite = true)
    (hless : wholeReading a < -2 ^ 63) : toInt32 a = 0 := by
  rw [toInt32_of_isFinite hfinite, min_eq_right (by omega), max_eq_left (by omega)]
  rfl

/-- The integral part has 64 bits, or it is less and its last 32 bits are zero. -/
def Wraps (whole : ℤ) : Prop :=
  -2 ^ 63 ≤ whole ∧ whole < 2 ^ 63 ∨ whole < -2 ^ 63 ∧ 2 ^ 32 ∣ whole

theorem toInt32_modEq_iff (hfinite : (toNumber a).isFinite = true) :
    (toInt32 a).toInt ≡ wholeReading a [ZMOD 2 ^ 32] ↔ Wraps (wholeReading a) := by
  unfold Wraps
  by_cases hless : wholeReading a < -2 ^ 63
  · rw [toInt32_of_less hfinite hless, Int.modEq_iff_dvd]
    change 2 ^ 32 ∣ wholeReading a - 0 ↔ _
    omega
  · by_cases hgreater : 2 ^ 63 ≤ wholeReading a
    · have hdvd : 2 ^ 11 ∣ wholeReading a := Double.dvd_integralPart hfinite (by
        change _ ≤ (wholeReading a).natAbs
        omega)
      rw [toInt32_of_greater hfinite hgreater, Int.modEq_iff_dvd]
      change 2 ^ 32 ∣ wholeReading a - -1 ↔ _
      omega
    · rw [toInt32_of_64_bits hfinite (by omega) (by omega), Int32.toInt_ofInt]
      exact iff_of_true Int.bmod_emod (.inl ⟨by omega, by omega⟩)

/-! ## Exclusive or -/

/-- A word is read back as itself. -/
theorem toInt32_ofInt (word : Int32) : toInt32 (.ofInt word.toInt) = word := by
  have hlower := word.le_toInt
  have hupper := word.toInt_lt
  have hvalue : (WideInt.clamp word.toInt).val = word.toInt :=
    WideInt.val_clamp_of_bounds (by omega) (by omega)
  obtain ⟨hfinite, hnumber⟩ :=
    WideInt.value_toFloat (i := .clamp word.toInt) (by rw [hvalue]; omega)
  have hwhole : wholeReading (.ofInt word.toInt) = word.toInt := by
    change Double.integralPart (Double.value (WideInt.clamp word.toInt).toFloat) = _
    rw [hnumber, hvalue, Double.integralPart_intCast]
  have hword := toInt32_of_64_bits (a := .ofInt word.toInt) hfinite
    (by rw [hwhole]; omega) (by rw [hwhole]; omega)
  rw [hword, hwhole, Int32.ofInt_toInt]

theorem toInt32_exclusiveOr (a b : Json) :
    toInt32 (exclusiveOr a b) = toInt32 a ^^^ toInt32 b :=
  toInt32_ofInt _

theorem gives_xor (a b : Json) : Gives "xor" [a, b] (exclusiveOr a b) :=
  gives_of_lookup rfl rfl rfl rfl

theorem exclusiveOr_comm (a b : Json) : exclusiveOr a b = exclusiveOr b a := by
  unfold exclusiveOr
  rw [Int32.xor_comm]

theorem exclusiveOr_cancel (a b : Json) :
    exclusiveOr (exclusiveOr a b) b = .ofInt (toInt32 a).toInt := by
  rw [exclusiveOr, toInt32_exclusiveOr, Int32.xor_assoc, Int32.xor_self, Int32.xor_zero]

theorem exclusiveOr_assoc (a b c : Json) :
    exclusiveOr (exclusiveOr a b) c = exclusiveOr a (exclusiveOr b c) := by
  change Json.ofInt (toInt32 (exclusiveOr a b) ^^^ toInt32 c).toInt =
    .ofInt (toInt32 a ^^^ toInt32 (exclusiveOr b c)).toInt
  rw [toInt32_exclusiveOr, toInt32_exclusiveOr, Int32.xor_assoc]

/-- How values are read as words, and the laws of the exclusive or of any three of them. -/
structure WordLaws (a b c : Json) : Prop where
  unread : (toNumber a).isFinite = false → toInt32 a = 0
  wraps_iff : (toNumber a).isFinite = true →
    ((toInt32 a).toInt ≡ wholeReading a [ZMOD 2 ^ 32] ↔ Wraps (wholeReading a))
  greater : (toNumber a).isFinite = true → 2 ^ 63 ≤ wholeReading a → toInt32 a = -1
  less : (toNumber a).isFinite = true → wholeReading a < -2 ^ 63 → toInt32 a = 0
  words : Gives "xor" [a, b] (.ofInt (toInt32 a ^^^ toInt32 b).toInt)
  comm : ∃ value, Gives "xor" [a, b] value ∧ Gives "xor" [b, a] value
  cancel : ∃ value, Gives "xor" [a, b] value ∧ Gives "xor" [value, b] (.ofInt (toInt32 a).toInt)
  assoc : ∃ first last value, Gives "xor" [a, b] first ∧ Gives "xor" [b, c] last ∧
    Gives "xor" [first, c] value ∧ Gives "xor" [a, last] value

theorem exclusiveOr_wordLaws (a b c : Json) : WordLaws a b c where
  unread := toInt32_of_unread
  wraps_iff := toInt32_modEq_iff
  greater := toInt32_of_greater
  less := toInt32_of_less
  words := gives_xor a b
  comm := ⟨_, gives_xor a b, exclusiveOr_comm a b ▸ gives_xor b a⟩
  cancel := ⟨_, gives_xor a b, exclusiveOr_cancel a b ▸ gives_xor _ b⟩
  assoc := ⟨_, _, _, gives_xor a b, gives_xor b c, gives_xor _ c,
    exclusiveOr_assoc a b c ▸ gives_xor a _⟩

/-- The least integer beyond 63 bits. -/
def saturating : Json :=
  .number (.integer ⟨9223372036854775808, by decide, by decide⟩)

/-- An integer whose last 32 bits are zero, and whose word has all bits set. -/
theorem toInt32_saturating :
    (toNumber saturating).isFinite = true ∧ wholeReading saturating = 2 ^ 63 ∧
      toInt32 saturating = -1 ∧ ¬(toInt32 saturating).toInt ≡ 2 ^ 63 [ZMOD 2 ^ 32] ∧
      Gives "xor" [saturating, .ofInt 0] (.ofInt (-1)) := by
  have hfinite : (toNumber saturating).isFinite = true := by decide +kernel
  have hwhole : wholeReading saturating = 2 ^ 63 := by
    unfold wholeReading
    rw [← Double.truncate_parts hfinite]
    decide +kernel
  have hword : toInt32 saturating = -1 := toInt32_of_greater hfinite hwhole.ge
  have hzero : toInt32 (.ofInt 0) = 0 := toInt32_ofInt 0
  have hxor : exclusiveOr saturating (.ofInt 0) = .ofInt (-1) := by
    unfold exclusiveOr
    rw [hword, hzero]
    rfl
  refine ⟨hfinite, hwhole, hword, ?_, hxor ▸ gives_xor saturating (.ofInt 0)⟩
  rw [hword]
  decide

end Standard
end DecisionLogic
