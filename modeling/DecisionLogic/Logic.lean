import DecisionLogic.Failure
import DecisionLogic.Json.Printer
import DecisionLogic.Digest.Sha256

/-!
# Logic trees

A logic tree arrives as JSON.  An array is a sequence, an object with exactly one key is an
operation with that name, and every other value is a literal.  A literal that is made in another way
may hold any value; it is never looked into.
-/

namespace DecisionLogic

inductive Logic where
  | literal (value : Json)
  | sequence (items : List Logic)
  | operation (name : String) (args : Logic)
deriving Inhabited

namespace Logic

mutual

def parse : Json → Logic
  | .array items => .sequence (parseItems items)
  | .object [(name, args)] => .operation name (parse args)
  | value => .literal value

def parseItems : List Json → List Logic
  | [] => []
  | item :: items => parse item :: parseItems items

end

mutual

/-- The tree that a value on level `depth` describes, if no node of it lies on a level deeper than
`limit`.  Arguments and elements lie one level below their node. -/
def parseAt (limit depth : Nat) : Json → Except Failure Logic
  | .array items =>
      if limit < depth then .error (.nestingTooDeep limit)
      else (parseItemsAt limit (depth + 1) items).map .sequence
  | .object [(name, args)] =>
      if limit < depth then .error (.nestingTooDeep limit)
      else (parseAt limit (depth + 1) args).map (.operation name)
  | value => if limit < depth then .error (.nestingTooDeep limit) else .ok (.literal value)

def parseItemsAt (limit depth : Nat) : List Json → Except Failure (List Logic)
  | [] => .ok []
  | item :: items =>
      match parseAt limit depth item with
      | .error failure => .error failure
      | .ok node => (parseItemsAt limit depth items).map (node :: ·)

end

/-- The tree that a value describes, unless it is nested deeper than `limit` levels. -/
def parseBounded (limit : Nat) (value : Json) : Except Failure Logic :=
  parseAt limit 0 value

mutual

def toJson : Logic → Json
  | .literal value => value
  | .sequence items => .array (itemsToJson items)
  | .operation name args => .object [(name, args.toJson)]

def itemsToJson : List Logic → List Json
  | [] => []
  | item :: items => item.toJson :: itemsToJson items

end

/-- The list of arguments that an argument node stands for: the elements of a sequence, or the node
itself. -/
def arguments : Logic → List Logic
  | .sequence items => items
  | node => [node]

def operatorName? : Logic → Option String
  | .operation name _ => some name
  | _ => none

mutual

/-- No operation occurs in the tree, so evaluating it cannot run an operator. -/
def isConstant : Logic → Bool
  | .literal _ => true
  | .sequence items => allConstant items
  | .operation _ _ => false

def allConstant : List Logic → Bool
  | [] => true
  | item :: items => item.isConstant && allConstant items

end

mutual

def same : Logic → Logic → Bool
  | .literal a, .literal b => a.same b
  | .sequence items, .sequence others => sameItems items others
  | .operation name args, .operation other otherArgs => name == other && args.same otherArgs
  | _, _ => false

def sameItems : List Logic → List Logic → Bool
  | [], [] => true
  | item :: items, other :: others => item.same other && sameItems items others
  | _, _ => false

end

def fingerprint (value : Json) : String :=
  Digest.sha256 value.compact

end Logic
end DecisionLogic
