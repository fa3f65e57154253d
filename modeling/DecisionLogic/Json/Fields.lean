/-!
# Ordered tables with text keys

A table is a list of entries in order of first insertion.  Writing under a key that is present
keeps its place and replaces its value, so that a table built by `insert` has each key once.
-/

namespace DecisionLogic

abbrev Fields (α : Type) := List (String × α)

namespace Fields

variable {α : Type}

def find? : Fields α → String → Option α
  | [], _ => none
  | (name, value) :: rest, key => if name = key then some value else find? rest key

def has (fields : Fields α) (key : String) : Bool :=
  (fields.find? key).isSome

def insert : Fields α → String → α → Fields α
  | [], key, value => [(key, value)]
  | (name, old) :: rest, key, value =>
      if name = key then (name, value) :: rest else (name, old) :: insert rest key value

def erase (fields : Fields α) (key : String) : Fields α :=
  fields.filter fun entry => entry.1 ≠ key

def keys (fields : Fields α) : List String :=
  fields.map Prod.fst

theorem find?_insert_self (fields : Fields α) (key : String) (value : α) :
    (fields.insert key value).find? key = some value := by
  induction fields with
  | nil => simp [insert, find?]
  | cons entry rest ih =>
      by_cases h : entry.1 = key
      · simp [insert, find?, h]
      · simp [insert, find?, h, ih]

theorem find?_insert_of_ne (fields : Fields α) {key other : String} (value : α)
    (hne : key ≠ other) :
    (fields.insert key value).find? other = fields.find? other := by
  induction fields with
  | nil => simp [insert, find?, hne]
  | cons entry rest ih =>
      by_cases h : entry.1 = key
      · have hother : entry.1 ≠ other := by rw [h]; exact hne
        simp [insert, find?, h, hne]
      · by_cases hother : entry.1 = other
        · simp [insert, find?, hother, Ne.symm hne]
        · simp [insert, find?, h, hother, ih]

end Fields
end DecisionLogic
