import DecisionLogic.Json.Reader
import DecisionLogic.Json.Printer
import Mathlib.Data.List.TakeDrop
import Mathlib.Data.List.TakeWhile

/-!
# Numerals are read back

The reader takes the decimal numeral of an integer apart digit by digit.  As long as the value fits
64 bits no digit is lost, so what it reads is the integer that was written.
-/

namespace DecisionLogic.Json

namespace Reader

open Nat (toDigits digitChar)

/-! ## Digits -/

theorem digitValue_digitChar : ∀ digit < 10, Text.digitValue (digitChar digit) = digit := by
  decide

/-- A numeral starts with a zero only if it is the zero. -/
theorem eq_zero_of_head?_toDigits (n : Nat) (hhead : (toDigits 10 n).head? = some '0') : n = 0 := by
  induction n using Nat.strongRecOn with
  | ind n ih =>
      rw [Nat.toDigits_eq_if (by decide)] at hhead
      split at hhead
      next hsmall =>
        have hdigit : digitChar n = '0' := Option.some.inj hhead
        rw [← digitValue_digitChar n hsmall, hdigit]
        rfl
      next hgreat =>
        rw [List.head?_append, Option.or_of_isSome (by simp)] at hhead
        have hzero := ih (n / 10) (by omega) hhead
        omega

theorem pushWhole_of_fits (value : Nat) {digit : Nat} {c : Char}
    (hdigit : Text.digitValue c = digit) (hfits : 10 * value + digit < 0x10000000000000000) :
    Significand.pushWhole ⟨value, 0, false⟩ c = ⟨10 * value + digit, 0, false⟩ := by
  unfold Significand.pushWhole Significand.fits
  rw [hdigit]
  simp [hfits]

theorem foldl_pushWhole_toDigits {n : Nat} (hfits : n < 0x10000000000000000) :
    (toDigits 10 n).foldl Significand.pushWhole ⟨0, 0, false⟩ = ⟨n, 0, false⟩ := by
  induction n using Nat.strongRecOn with
  | ind n ih =>
      rw [Nat.toDigits_eq_if (by decide)]
      split
      next hsmall =>
        have hpush := pushWhole_of_fits 0 (digitValue_digitChar n hsmall) (by omega)
        rw [Nat.mul_zero, Nat.zero_add] at hpush
        exact hpush
      next hgreat =>
        have hlast := digitValue_digitChar (n % 10) (Nat.mod_lt n (by decide))
        rw [List.foldl_append, ih (n / 10) (by omega) (by omega)]
        have hpush := pushWhole_of_fits (n / 10) hlast (by omega)
        rw [Nat.div_add_mod] at hpush
        exact hpush

theorem spanDigits_toDigits (n : Nat) :
    Double.spanDigits (toDigits 10 n) = (toDigits 10 n, []) := by
  have hdigits : ∀ c ∈ toDigits 10 n, c.isDigit = true := fun c hmem =>
    Nat.isDigit_of_mem_toDigits (by decide) (by decide) hmem
  unfold Double.spanDigits
  rw [List.span_eq_takeWhile_dropWhile, List.takeWhile_eq_self_iff.mpr hdigits,
    List.dropWhile_eq_nil_iff.mpr hdigits]

theorem readWhole?_toDigits (n : Nat) : readWhole? (toDigits 10 n) = some (toDigits 10 n, []) := by
  unfold readWhole?
  rw [spanDigits_toDigits]
  split
  next _ hpair => exact absurd (congrArg Prod.fst hpair) Nat.toDigits_ne_nil
  next c cs _ hpair =>
    have hdigits : toDigits 10 n = '0' :: c :: cs := congrArg Prod.fst hpair
    obtain rfl := eq_zero_of_head?_toDigits n (by rw [hdigits]; rfl)
    cases hdigits
  next _ _ hpair =>
    cases hpair
    rfl

/-! ## Numbers -/

/-- The numeral of a number of that magnitude. -/
def numeral (negative : Bool) (n : Nat) : List Char :=
  if negative then '-' :: toDigits 10 n else toDigits 10 n

@[simp] theorem numeral_false (n : Nat) : numeral false n = toDigits 10 n :=
  rfl

theorem readNumber?_numeral (negative : Bool) {n : Nat} (hfits : n < 0x10000000000000000) :
    readNumber? (numeral negative n) =
      (wholeOf? negative ⟨n, 0, false⟩).map fun number => (number, []) := by
  unfold readNumber?
  split
  next negative' rest hpair =>
    obtain ⟨rfl, rfl⟩ : negative = negative' ∧ toDigits 10 n = rest := by
      rw [← Prod.mk.injEq, ← hpair]
      cases negative with
      | true => rfl
      | false =>
          split
          next rest hdigits =>
            have hmem : '-' ∈ toDigits 10 n := by
              change numeral false n = '-' :: rest at hdigits
              rw [← numeral_false, hdigits]
              exact List.mem_cons_self
            cases Nat.isDigit_of_mem_toDigits (by decide) (by decide) hmem
          next => rfl
    rw [readWhole?_toDigits]
    change (do
      let number ← wholeOf? negative ((toDigits 10 n).foldl Significand.pushWhole ⟨0, 0, false⟩)
      return (number, [])) = _
    rw [foldl_pushWhole_toDigits hfits]
    cases wholeOf? negative ⟨n, 0, false⟩ <;> rfl

theorem toList_toString (i : Int) :
    (toString i).toList = numeral (decide (i < 0)) i.natAbs := by
  cases i with
  | ofNat n => exact Nat.toList_repr
  | negSucc n =>
      rw [decide_eq_true (Int.negSucc_lt_zero n)]
      change ("-" ++ (n + 1).repr).toList = '-' :: toDigits 10 (n + 1)
      rw [String.toList_append, Nat.toList_repr]
      rfl

theorem wholeOf?_natAbs (i : WideInt) :
    wholeOf? (decide (i.val < 0)) ⟨i.val.natAbs, 0, false⟩ = some (.integer i) := by
  have hlower := i.lower
  have hupper := i.upper
  have hofInt : WideInt.ofInt? i.val = some i := by
    unfold WideInt.ofInt?
    rw [dif_pos ⟨hlower, hupper⟩]
  unfold wholeOf?
  dsimp only
  by_cases hnegative : i.val < 0
  · have hexact : -(i.val.natAbs : Int) = i.val := by omega
    rw [decide_eq_true hnegative, if_pos rfl, hexact, hofInt, if_neg]
    · rfl
    · simp
      omega
  · have hexact : (i.val.natAbs : Int) = i.val := by omega
    rw [decide_eq_false hnegative, if_neg Bool.false_ne_true, hexact, hofInt]
    rfl

/-! ## Values -/

/-- What starts neither like a text nor like a container nor like a word is read as a number. -/
theorem readValue?_numeral (fuel levels : Nat) (negative : Bool) (n : Nat) :
    readValue? (fuel + 1) levels (numeral negative n) =
      (readNumber? (numeral negative n)).map fun (m, rest) => (.number m, rest) := by
  obtain ⟨c, rest, hnumeral, hfirst⟩ :
      ∃ c rest, numeral negative n = c :: rest ∧ (c = '-' ∨ c.isDigit = true) := by
    cases negative with
    | true => exact ⟨'-', toDigits 10 n, rfl, .inl rfl⟩
    | false =>
        obtain ⟨c, rest, hdigits⟩ :=
          List.exists_cons_of_ne_nil (Nat.toDigits_ne_nil (n := n) (b := 10))
        refine ⟨c, rest, hdigits, .inr ?_⟩
        exact Nat.isDigit_of_mem_toDigits (by decide) (by decide) (hdigits ▸ List.mem_cons_self)
  have hne (other : Char) (hother : other.isDigit = false) (hminus : other ≠ '-') : c ≠ other := by
    rintro rfl
    rcases hfirst with rfl | hdigit
    · exact hminus rfl
    · rw [hother] at hdigit
      cases hdigit
  have hblank : skipBlank (c :: rest) = c :: rest := by
    have hnot : isBlank c = false := by
      simp [isBlank, hne ' ' rfl (by decide), hne '\n' rfl (by decide), hne '\t' rfl (by decide),
        hne '\r' rfl (by decide)]
    unfold skipBlank
    rw [List.dropWhile_cons_of_neg (by simp [hnot])]
  rw [hnumeral, readValue?, hblank]
  dsimp only
  rw [if_neg (hne '"' rfl (by decide)), if_neg (hne '[' rfl (by decide)),
    if_neg (hne '\x7b' rfl (by decide)), if_neg (hne 'n' rfl (by decide)),
    if_neg (hne 't' rfl (by decide)), if_neg (hne 'f' rfl (by decide))]

end Reader

/-- The numeral of an integer is read as that integer. -/
theorem read?_toString (levels : Nat) (i : WideInt) :
    read? levels (toString i.val) = some (.number (.integer i)) := by
  have hfits : i.val.natAbs < 0x10000000000000000 := by
    have hlower := i.lower
    have hupper := i.upper
    omega
  rw [read?, Reader.toList_toString, Reader.readValue?_numeral, Reader.readNumber?_numeral _ hfits,
    Reader.wholeOf?_natAbs]
  rfl

theorem toString_injective {i j : WideInt} (htext : toString i.val = toString j.val) : i = j := by
  have hread := read?_toString 0 i
  rw [htext, read?_toString] at hread
  cases hread
  rfl

end DecisionLogic.Json
