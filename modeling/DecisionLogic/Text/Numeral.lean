/-!
# Decimal numerals

Whole numbers written with the digits `0` to `9`, behind a sign or not.
-/

namespace DecisionLogic.Text

def digitValue (c : Char) : Nat :=
  c.toNat - '0'.toNat

def digitsValue (cs : List Char) : Nat :=
  cs.foldl (fun value c => 10 * value + digitValue c) 0

def readSign : List Char → Bool × List Char
  | '+' :: rest => (false, rest)
  | '-' :: rest => (true, rest)
  | rest => (false, rest)

/-- The number that at least one digit writes, and nothing but digits. -/
def digits? (cs : List Char) : Option Nat :=
  if cs.isEmpty || !cs.all Char.isDigit then none else some (digitsValue cs)

/-- A whole number that is not negative; it may stand behind a plus sign. -/
def natural? : List Char → Option Nat
  | '+' :: digits => digits? digits
  | digits => digits? digits

def integer? (cs : List Char) : Option Int :=
  let (negative, digits) := readSign cs
  (digits? digits).map fun n => if negative then -(n : Int) else n

def natural64? (cs : List Char) : Option Nat :=
  (natural? cs).filter fun n => n < 0x10000000000000000

def isInteger64 (n : Int) : Bool :=
  -0x8000000000000000 ≤ n && n < 0x8000000000000000

end DecisionLogic.Text
