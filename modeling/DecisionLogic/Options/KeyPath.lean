import DecisionLogic.Text.Numeral

/-!
# Key paths

A key of a source of options is a path: a name, and behind it names after points and places in
brackets, as in `limits.depth[2]`.  A key of another form is one name as a whole.
-/

namespace DecisionLogic

inductive KeyStep where
  | name (text : String)
  /-- A place in a list, counted from its end when negative. -/
  | place (index : Int)
deriving DecidableEq, Repr

namespace KeyStep

def isNameChar (c : Char) : Bool :=
  c.isAlphanum || c = '_' || c = '-' || c = ' '

def isGap (c : Char) : Bool :=
  c = ' ' || c = '\t'

/-- The place between brackets: an integer of 64 bits without a plus sign, blanks around it. -/
def placeOf? (cs : List Char) : Option KeyStep := do
  let numeral := ((cs.dropWhile isGap).reverse.dropWhile isGap).reverse
  if numeral.head? = some '+' then none
  else
    let index ← Text.integer? numeral
    if Text.isInteger64 index then some (.place index) else none

/-- The steps of a path, each with the point or the bracket that leads it. -/
def stepsOf? : Nat → List Char → Option (List KeyStep)
  | _, [] => some []
  | fuel + 1, '.' :: rest =>
      match rest.span isNameChar with
      | ([], _) => none
      | (text, rest) => (stepsOf? fuel rest).map (.name (String.ofList text) :: ·)
  | fuel + 1, '[' :: rest =>
      match rest.span fun c => c ≠ ']' with
      | (_, []) => none
      | (inner, _ :: rest) => do
          let step ← placeOf? inner
          let steps ← stepsOf? fuel rest
          return step :: steps
  | _, _ :: _ => none

def pathOf (key : String) : List KeyStep :=
  let cs := '.' :: key.toList
  (stepsOf? cs.length cs).getD [.name key]

end KeyStep
end DecisionLogic
