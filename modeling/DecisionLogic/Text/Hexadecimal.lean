/-!
# Hexadecimal numerals

Natural numbers written in base sixteen or a smaller one, and the characters whose code points they
are.  Digits are read in either case and written in lower case.
-/

namespace DecisionLogic.Text

def hexValue? (c : Char) : Option Nat :=
  if c.isDigit then some (c.toNat - '0'.toNat)
  else if 'a' ≤ c ∧ c ≤ 'f' then some (c.toNat - 'a'.toNat + 10)
  else if 'A' ≤ c ∧ c ≤ 'F' then some (c.toNat - 'A'.toNat + 10)
  else none

def hexNumber? (cs : List Char) : Option Nat :=
  cs.foldlM (fun value c => (hexValue? c).map fun digit => 16 * value + digit) 0

/-- The number that at least one digit of a base up to sixteen writes. -/
def baseNumber? (base : Nat) (cs : List Char) : Option Nat :=
  if cs.isEmpty then none
  else
    cs.foldlM (fun value c =>
      (hexValue? c).bind fun digit => if digit < base then some (base * value + digit) else none) 0

/-- The character with a code point; halves of a surrogate pair are no characters. -/
def charAt? (code : Nat) : Option Char :=
  if code < 0xd800 ∨ (0xdfff < code ∧ code < 0x110000) then some (Char.ofNat code) else none

def hexDigits (width n : Nat) : List Char :=
  (List.range width).map fun i => Nat.digitChar (n >>> (4 * (width - 1 - i)) % 16)

@[simp] theorem length_hexDigits (width n : Nat) : (hexDigits width n).length = width := by
  simp [hexDigits]

end DecisionLogic.Text
