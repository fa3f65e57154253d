import DecisionLogic.Double.Parts
import Mathlib

/-!
# Parts and unpacked forms

The parts of a finite double are those of its unpacked form.  A double with all 53 bits of its
significand is packed from its parts, and the parts of its negation differ in the sign only.
-/

namespace DecisionLogic.Double

open Float.Model (UnpackedFloat)

/-! ## Unpacked forms -/

def Parts.sign (p : Parts) : UnpackedFloat.Sign :=
  if p.negative then .negative else .positive

/-- The unpacked form of the double with the given parts. -/
def Parts.unpacked (p : Parts) : UnpackedFloat :=
  if h : 0 < p.significand then .finite p.sign p.significand p.exponent h else .zero p.sign

theorem Parts.finite_eq_unpacked {p : Parts} {s : UnpackedFloat.Sign} {m : Nat} {e : Int}
    {hpos : 0 < m} (hsign : s = p.sign) (hsignificand : m = p.significand)
    (hexponent : e = p.exponent) : UnpackedFloat.finite s m e hpos = p.unpacked := by
  subst hsign hsignificand hexponent
  exact (dif_pos hpos).symm

theorem toNat_one_append (fraction : BitVec 52) :
    ((1#1 : BitVec 1) ++ fraction).toNat = 2 ^ 52 + fraction.toNat := by
  rw [BitVec.toNat_append, ← Nat.shiftLeft_add_eq_or_of_lt fraction.isLt]
  rfl

section Unpacking

variable (bits : BitVec 64)

theorem toNat_unpackExponent :
    (@UnpackedFloat.unpackExponent .binary64 bits).toNat =
      bits.toNat / 2 ^ 52 % 2 ^ 11 := by
  rw [UnpackedFloat.unpackExponent_def]
  change (bits.extractLsb' 52 11).toNat = _
  rw [BitVec.extractLsb'_toNat, Nat.shiftRight_eq_div_pow]

theorem toNat_unpackMantissa :
    (@UnpackedFloat.unpackMantissa .binary64 bits).toNat = bits.toNat % 2 ^ 52 := by
  rw [UnpackedFloat.unpackMantissa_def]
  change (bits.extractLsb' 0 52).toNat = _
  rw [BitVec.extractLsb'_toNat, Nat.shiftRight_zero]

theorem ofBitVec_unpackSign :
    UnpackedFloat.Sign.ofBitVec (@UnpackedFloat.unpackSign .binary64 bits) =
      if 2 ^ 63 ≤ bits.toNat then .negative else .positive := by
  have hsmall := bits.isLt
  have hbit : (@UnpackedFloat.unpackSign .binary64 bits).toNat = bits.toNat / 2 ^ 63 := by
    rw [UnpackedFloat.unpackSign_def]
    change (bits.extractLsb' 63 1).toNat = _
    rw [BitVec.extractLsb'_toNat, Nat.shiftRight_eq_div_pow]
    omega
  unfold UnpackedFloat.Sign.ofBitVec
  by_cases hnegative : 2 ^ 63 ≤ bits.toNat
  · rw [if_pos hnegative, if_neg]
    intro hzero
    have hnone : bits.toNat / 2 ^ 63 = 0 := hbit ▸ congrArg BitVec.toNat hzero
    omega
  · rw [if_neg hnegative, if_pos]
    apply BitVec.eq_of_toNat_eq
    rw [hbit]
    change bits.toNat / 2 ^ 63 = 0
    omega

variable {bits} {p : Parts}

theorem unpack_of_subnormal (hexponent : bits.toNat / 2 ^ 52 % 2 ^ 11 = 0)
    (hsign : p.negative = decide (2 ^ 63 ≤ bits.toNat))
    (hsignificand : p.significand = bits.toNat % 2 ^ 52) (hleast : p.exponent = -1074) :
    UnpackedFloat.unpack .binary64 bits = p.unpacked := by
  have hzero : @UnpackedFloat.unpackExponent .binary64 bits = 0#11 :=
    BitVec.eq_of_toNat_eq ((toNat_unpackExponent bits).trans hexponent)
  have hp : UnpackedFloat.Sign.ofBitVec (@UnpackedFloat.unpackSign .binary64 bits) =
      p.sign := by
    simp [ofBitVec_unpackSign, Parts.sign, hsign]
  have hfraction := toNat_unpackMantissa bits
  unfold UnpackedFloat.unpack
  dsimp only
  rw [if_neg (hzero ▸ by decide), if_pos hzero, hp]
  split
  next hnone =>
    have hnone : p.significand = 0 := by
      rw [hsignificand, ← hfraction, hnone]
      rfl
    unfold Parts.unpacked
    rw [dif_neg hnone.not_gt]
  next =>
    refine Parts.finite_eq_unpacked rfl (hfraction.trans hsignificand.symm) ?_
    rw [hzero, hleast]
    rfl

theorem unpack_of_normal (hexponent : bits.toNat / 2 ^ 52 % 2 ^ 11 ≠ 0)
    (hlimit : bits.toNat / 2 ^ 52 % 2 ^ 11 ≠ 2047)
    (hsign : p.negative = decide (2 ^ 63 ≤ bits.toNat))
    (hsignificand : p.significand = 2 ^ 52 + bits.toNat % 2 ^ 52)
    (hbiased : p.exponent = (bits.toNat / 2 ^ 52 % 2 ^ 11 : Nat) - 1075) :
    UnpackedFloat.unpack .binary64 bits = p.unpacked := by
  have hfield := toNat_unpackExponent bits
  have hnonzero : @UnpackedFloat.unpackExponent .binary64 bits ≠ 0#11 :=
    fun h => hexponent (hfield ▸ congrArg BitVec.toNat h)
  have hnumber : @UnpackedFloat.unpackExponent .binary64 bits ≠ -1#11 :=
    fun h => hlimit (hfield ▸ congrArg BitVec.toNat h)
  have hp : UnpackedFloat.Sign.ofBitVec (@UnpackedFloat.unpackSign .binary64 bits) =
      p.sign := by
    simp [ofBitVec_unpackSign, Parts.sign, hsign]
  unfold UnpackedFloat.unpack
  dsimp only
  rw [if_neg hnumber, if_neg hnonzero, hp]
  refine Parts.finite_eq_unpacked rfl ?_ ?_
  · rw [hsignificand, ← toNat_unpackMantissa]
    exact toNat_one_append _
  · rw [hbiased, hfield]
    rfl

end Unpacking

theorem parts_of_subnormal {x : Float} (hexponent : x.toBits.toNat / 2 ^ 52 % 2 ^ 11 = 0) :
    parts x = ⟨decide (2 ^ 63 ≤ x.toBits.toNat), x.toBits.toNat % 2 ^ 52, -1074⟩ :=
  if_pos hexponent

theorem parts_of_normal {x : Float} (hexponent : x.toBits.toNat / 2 ^ 52 % 2 ^ 11 ≠ 0) :
    parts x = ⟨decide (2 ^ 63 ≤ x.toBits.toNat), 2 ^ 52 + x.toBits.toNat % 2 ^ 52,
      (x.toBits.toNat / 2 ^ 52 % 2 ^ 11 : Nat) - 1075⟩ :=
  if_neg hexponent

theorem unpack_eq {x : Float} (hlimit : x.toBits.toNat / 2 ^ 52 % 2 ^ 11 ≠ 2047) :
    x.toModel.unpack = (parts x).unpacked := by
  by_cases hexponent : x.toBits.toNat / 2 ^ 52 % 2 ^ 11 = 0
  · rw [parts_of_subnormal hexponent]
    exact unpack_of_subnormal hexponent rfl rfl rfl
  · rw [parts_of_normal hexponent]
    exact unpack_of_normal hexponent hlimit rfl rfl rfl

theorem unpack_of_isFinite {x : Float} (hfinite : x.isFinite = true) :
    x.toModel.unpack = (parts x).unpacked := by
  refine unpack_eq fun hlimit => ?_
  have hnumber : @UnpackedFloat.unpackExponent .binary64 x.toBits.toBitVec = -1#11 :=
    BitVec.eq_of_toNat_eq ((toNat_unpackExponent _).trans hlimit)
  have hkind : (UnpackedFloat.unpack .binary64 x.toBits.toBitVec).isFinite = true := hfinite
  unfold UnpackedFloat.unpack at hkind
  dsimp only at hkind
  rw [if_pos hnumber] at hkind
  split at hkind
  · cases hkind
  · cases hkind

theorem significand_lt (x : Float) : (parts x).significand < 2 ^ 53 := by
  by_cases hexponent : x.toBits.toNat / 2 ^ 52 % 2 ^ 11 = 0
  · rw [parts_of_subnormal hexponent]
    dsimp only
    omega
  · rw [parts_of_normal hexponent]
    dsimp only
    omega

/-! ## Packing -/

theorem toNat_packComponents (s : UnpackedFloat.Sign) (exponent : BitVec 11)
    (fraction : BitVec 52) :
    (UnpackedFloat.packComponents .binary64 s exponent fraction).toNat =
      s.toBitVec.toNat * 2 ^ 63 + exponent.toNat * 2 ^ 52 + fraction.toNat := by
  change ((s.toBitVec ++ exponent) ++ fraction).toNat = _
  rw [BitVec.toNat_append, BitVec.toNat_append, ← Nat.shiftLeft_add_eq_or_of_lt fraction.isLt,
    ← Nat.shiftLeft_add_eq_or_of_lt exponent.isLt, Nat.shiftLeft_eq, Nat.shiftLeft_eq]
  omega

/-- The parts of a double with all 53 bits of its significand. -/
structure Parts.IsNormal (p : Parts) : Prop where
  lower : 2 ^ 52 ≤ p.significand
  upper : p.significand < 2 ^ 53
  least : -1074 ≤ p.exponent
  greatest : p.exponent ≤ 971

def Parts.negated (p : Parts) : Parts :=
  { p with negative := !p.negative }

namespace Parts.IsNormal

variable {p : Parts}

theorem pos (hnormal : p.IsNormal) : 0 < p.significand :=
  (Nat.two_pow_pos 52).trans_le hnormal.lower

theorem unpacked_eq (hnormal : p.IsNormal) :
    p.unpacked = .finite p.sign p.significand p.exponent hnormal.pos :=
  dif_pos hnormal.pos

theorem negated (hnormal : p.IsNormal) : p.negated.IsNormal :=
  ⟨hnormal.lower, hnormal.upper, hnormal.least, hnormal.greatest⟩

theorem neg_unpacked (hnormal : p.IsNormal) : p.unpacked.neg = p.negated.unpacked := by
  have hsign : -p.sign = p.negated.sign := by
    unfold Parts.negated sign
    cases p.negative <;> rfl
  rw [hnormal.unpacked_eq]
  exact finite_eq_unpacked hsign rfl rfl

theorem pack_unpacked (hnormal : p.IsNormal) :
    UnpackedFloat.pack .binary64 p.unpacked = UnpackedFloat.packComponents .binary64 p.sign
      (.ofNat 11 (p.exponent + 1075).toNat) (.ofNat 52 p.significand) := by
  have hgreatest := hnormal.greatest
  have hlog : p.significand.log2 = 52 :=
    (Nat.log2_eq_iff hnormal.pos.ne').mpr ⟨hnormal.lower, hnormal.upper⟩
  have hsum : (p.exponent + (Float.Model.Format.binary64.exponentBias : Int) +
      (Float.Model.Format.binary64.mantissaBitsWithoutImplicit : Int)).toNat =
        (p.exponent + 1075).toNat := by
    change (p.exponent + 1023 + 52).toNat = _
    omega
  rw [hnormal.unpacked_eq]
  unfold UnpackedFloat.pack
  dsimp only
  rw [hlog, hsum, if_neg (by omega), if_pos (by decide)]

theorem toBits_pack (hnormal : p.IsNormal) :
    (Float.ofModel (Float.Model.pack p.unpacked)).toBits.toNat =
      p.negative.toNat * 2 ^ 63 + (p.exponent + 1075).toNat * 2 ^ 52 +
        (p.significand - 2 ^ 52) := by
  obtain ⟨hlower, hupper, hleast, hgreatest⟩ := hnormal
  have hsign : p.sign.toBitVec.toNat = p.negative.toNat := by
    unfold sign
    cases p.negative <;> rfl
  change (UnpackedFloat.pack .binary64 p.unpacked).toNat = _
  rw [pack_unpacked ⟨hlower, hupper, hleast, hgreatest⟩, toNat_packComponents, hsign,
    BitVec.toNat_ofNat, BitVec.toNat_ofNat]
  omega

end Parts.IsNormal

/-- The parts of a double are those it was packed from. -/
theorem parts_pack {p : Parts} (hnormal : p.IsNormal) :
    parts (.ofModel (Float.Model.pack p.unpacked)) = p := by
  have hbits := hnormal.toBits_pack
  obtain ⟨hlower, hupper, hleast, hgreatest⟩ := hnormal
  have hbit := p.negative.toNat_lt
  have hexponent : (Float.ofModel (Float.Model.pack p.unpacked)).toBits.toNat / 2 ^ 52 % 2 ^ 11 =
      (p.exponent + 1075).toNat := by
    rw [hbits]
    omega
  have hfraction : (Float.ofModel (Float.Model.pack p.unpacked)).toBits.toNat % 2 ^ 52 =
      p.significand - 2 ^ 52 := by
    rw [hbits]
    omega
  have hsign : decide (2 ^ 63 ≤ (Float.ofModel (Float.Model.pack p.unpacked)).toBits.toNat) =
      p.negative := by
    rw [hbits]
    cases hnegative : p.negative with
    | false =>
        rw [Bool.toNat_false, decide_eq_false_iff_not]
        omega
    | true =>
        rw [Bool.toNat_true, decide_eq_true_iff]
        omega
  rw [parts_of_normal (by rw [hexponent]; omega), hsign, hfraction, hexponent]
  obtain ⟨negative, m, e⟩ := p
  rw [Parts.mk.injEq]
  dsimp only at hlower hleast ⊢
  exact ⟨rfl, by omega, by omega⟩

theorem isFinite_of_isNormal {x : Float} (hnormal : (parts x).IsNormal) : x.isFinite = true := by
  have hlimit : x.toBits.toNat / 2 ^ 52 % 2 ^ 11 ≠ 2047 := by
    intro hlimit
    have hgreatest := hnormal.greatest
    rw [parts_of_normal (by omega)] at hgreatest
    dsimp only at hgreatest
    omega
  change x.toModel.unpack.isFinite = true
  rw [unpack_eq hlimit, hnormal.unpacked_eq]
  rfl

/-- Negation turns the sign around and keeps everything else. -/
theorem parts_neg {x : Float} (hnormal : (parts x).IsNormal) :
    parts (-x) = (parts x).negated := by
  change parts (.ofModel (Float.Model.pack x.toModel.unpack.neg)) = _
  rw [unpack_of_isFinite (isFinite_of_isNormal hnormal), hnormal.neg_unpacked,
    parts_pack hnormal.negated]

end DecisionLogic.Double
