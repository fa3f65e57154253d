import DecisionLogic.Operator.Basic

/-!
# Registries

A registry maps names to operators.  Its entries are kept in the order of their names.
-/

namespace DecisionLogic

structure Registry where
  entries : List (String × Operator)

namespace Registry

def empty : Registry :=
  ⟨[]⟩

def find? (name : String) : List (String × Operator) → Option Operator
  | [] => none
  | (other, operator) :: rest => if other = name then some operator else find? name rest

def put (name : String) (operator : Operator) :
    List (String × Operator) → List (String × Operator)
  | [] => [(name, operator)]
  | (other, old) :: rest =>
      if other = name then (name, operator) :: rest
      else if name < other then (name, operator) :: (other, old) :: rest
      else (other, old) :: put name operator rest

def lookup (registry : Registry) (name : String) : Option Operator :=
  find? name registry.entries

def contains (registry : Registry) (name : String) : Bool :=
  (registry.lookup name).isSome

def insert (registry : Registry) (name : String) (operator : Operator) : Registry :=
  ⟨put name operator registry.entries⟩

/-- Normalize an operator and store it under `name`, or leave the registry alone when the shape has
no body. -/
def register (registry : Registry) (name : String) (shape : Shape) (annotations : Annotations)
    (origin : Origin) : Bool × Registry :=
  match shape.normalize annotations origin with
  | none => (false, registry)
  | some operator => (true, registry.insert name operator)

def remove (registry : Registry) (name : String) : Registry :=
  ⟨registry.entries.filter fun entry => entry.1 ≠ name⟩

def names (registry : Registry) : List String :=
  registry.entries.map Prod.fst

def size (registry : Registry) : Nat :=
  registry.entries.length

theorem find?_put_self (name : String) (operator : Operator)
    (entries : List (String × Operator)) :
    find? name (put name operator entries) = some operator := by
  induction entries with
  | nil => simp [put, find?]
  | cons entry rest ih =>
      by_cases hname : entry.1 = name
      · simp [put, find?, hname]
      · by_cases hless : name < entry.1
        · simp [put, find?, hname, hless]
        · simp [put, find?, hname, hless, ih]

theorem find?_put_of_ne {name other : String} (hne : name ≠ other) (operator : Operator)
    (entries : List (String × Operator)) :
    find? other (put name operator entries) = find? other entries := by
  induction entries with
  | nil => simp [put, find?, hne]
  | cons entry rest ih =>
      by_cases hname : entry.1 = name
      · have hother : entry.1 ≠ other := by rw [hname]; exact hne
        simp [put, find?, hname, hne]
      · by_cases hless : name < entry.1
        · simp [put, find?, hname, hless, hne]
        · by_cases hother : entry.1 = other
          · have hnotless : ¬ name < other := by rw [← hother]; exact hless
            simp [put, find?, hother, Ne.symm hne, hnotless]
          · simp [put, find?, hname, hless, hother, ih]

@[simp] theorem lookup_insert_self (registry : Registry) (name : String) (operator : Operator) :
    (registry.insert name operator).lookup name = some operator :=
  find?_put_self name operator registry.entries

theorem lookup_insert_of_ne (registry : Registry) {name other : String} (hne : name ≠ other)
    (operator : Operator) :
    (registry.insert name operator).lookup other = registry.lookup other :=
  find?_put_of_ne hne operator registry.entries

end Registry
end DecisionLogic
