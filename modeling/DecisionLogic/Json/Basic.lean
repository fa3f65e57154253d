import DecisionLogic.Json.Fields

/-!
# JSON values

Numbers come in two kinds.  An integer is exact and lies between `-2 ^ 63` and `2 ^ 64 - 1`; every
other number is a finite double.  The integer one and the double one are different values: they are
written differently, and they differ inside arrays and objects.
-/

namespace DecisionLogic

/-- An integer that a JSON number can hold exactly. -/
structure WideInt where
  val : Int
  lower : -0x8000000000000000 ≤ val
  upper : val < 0x10000000000000000
deriving DecidableEq

namespace WideInt

def clamp (n : Int) : WideInt :=
  if hlower : -0x8000000000000000 ≤ n then
    if hupper : n < 0x10000000000000000 then ⟨n, hlower, hupper⟩
    else ⟨0xffffffffffffffff, by decide, by decide⟩
  else ⟨-0x8000000000000000, by decide, by decide⟩

def ofInt? (n : Int) : Option WideInt :=
  if h : -0x8000000000000000 ≤ n ∧ n < 0x10000000000000000 then some ⟨n, h.1, h.2⟩
  else none

def toFloat (n : WideInt) : Float :=
  if 0 ≤ n.val then n.val.toNat.toUInt64.toFloat else -(-n.val).toNat.toUInt64.toFloat

@[simp] theorem val_clamp_of_bounds {n : Int} (hlower : -0x8000000000000000 ≤ n)
    (hupper : n < 0x10000000000000000) : (clamp n).val = n := by
  unfold clamp
  rw [dif_pos hlower, dif_pos hupper]

end WideInt

/-- A double that is neither infinite nor a NaN. -/
structure FiniteDouble where
  val : Float
  finite : val.isFinite = true
deriving DecidableEq

inductive Number where
  | integer (value : WideInt)
  | double (value : FiniteDouble)
deriving DecidableEq

def Number.toFloat : Number → Float
  | .integer n => n.toFloat
  | .double x => x.val

/-- Equality of kind and value.  Both zeros of the double kind are equal. -/
def Number.same : Number → Number → Bool
  | .integer m, .integer n => m.val == n.val
  | .double x, .double y => x.val == y.val
  | _, _ => false

inductive Json where
  | null
  | bool (value : Bool)
  | number (value : Number)
  | string (value : String)
  | array (items : List Json)
  | object (fields : List (String × Json))
deriving Inhabited

namespace Json

def ofInt (n : Int) : Json :=
  .number (.integer (.clamp n))

def ofNat (n : Nat) : Json :=
  ofInt n

def isNull : Json → Bool
  | .null => true
  | _ => false

/-- Two tables agree when each entry of one is found in the other with an equal value.  The first
table carries, in place of its values, the test for being equal to them. -/
def sameEntries (tests : Fields (Json → Bool)) (fields : Fields Json) : Bool :=
  (tests.all fun entry =>
    match fields.find? entry.1 with
    | some value => entry.2 value
    | none => false) &&
  fields.all fun entry =>
    match tests.find? entry.1 with
    | some test => test entry.2
    | none => false

def sameItems : List (Json → Bool) → List Json → Bool
  | [], [] => true
  | test :: tests, item :: items => test item && sameItems tests items
  | _, _ => false

mutual

/-- Equality of values.  Objects are compared as tables, whatever the order of their keys. -/
def same : Json → Json → Bool
  | .null, other => other.isNull
  | .bool a, .bool b => a == b
  | .number a, .number b => a.same b
  | .string a, .string b => a == b
  | .array items, .array others => sameItems (itemTests items) others
  | .object fields, .object others => sameEntries (fieldTests fields) others
  | _, _ => false

def itemTests : List Json → List (Json → Bool)
  | [] => []
  | item :: items => same item :: itemTests items

def fieldTests : List (String × Json) → Fields (Json → Bool)
  | [] => []
  | (name, value) :: rest => (name, same value) :: fieldTests rest

end

def field? : Json → String → Option Json
  | .object fields, key => Fields.find? fields key
  | _, _ => none

end Json
end DecisionLogic
