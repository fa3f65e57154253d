import DecisionLogic.Double.Decimal
import DecisionLogic.Text.Hexadecimal
import DecisionLogic.Text.Numeral

/-!
# Nodes of YAML

The values of a document.  A scalar that is written plain and has no tag tells its type by its form;
a tag may claim a type that the scalar does not have, which makes a node that is `bad`.
-/

namespace DecisionLogic.Yaml

inductive Node where
  | bad
  | null
  | boolean (value : Bool)
  | integer (value : Int)
  | real (word : String)
  | text (value : String)
  | sequence (items : List Node)
  | mapping (entries : List (Node × Node))
deriving Inhabited

/-- A tag: what its handle stands for, and its suffix. -/
structure Tag where
  leading : String
  suffix : String

namespace Node

mutual

def same : Node → Node → Bool
  | .bad, .bad => true
  | .null, .null => true
  | .boolean a, .boolean b => a = b
  | .integer a, .integer b => a = b
  | .real a, .real b => a = b
  | .text a, .text b => a = b
  | .sequence as, .sequence bs => sameItems as bs
  | .mapping as, .mapping bs => sameEntries as bs
  | _, _ => false

def sameItems : List Node → List Node → Bool
  | [], [] => true
  | a :: as, b :: bs => same a b && sameItems as bs
  | _, _ => false

def sameEntries : List (Node × Node) → List (Node × Node) → Bool
  | [], [] => true
  | (key, value) :: as, (other, value') :: bs =>
      same key other && same value value' && sameEntries as bs
  | _, _ => false

end

/-! ## Scalars -/

def integer? (base : Nat) (digits : List Char) : Option Node :=
  let (negative, digits) := Text.readSign digits
  let value? := (Text.baseNumber? base digits).map fun (n : Nat) =>
    if negative then -(n : Int) else n
  (value?.filter Text.isInteger64).map .integer

def realNames : List String := [
  ".inf", ".Inf", ".INF", "+.inf", "+.Inf", "+.INF", "-.inf", "-.Inf", "-.INF", ".nan", "NaN",
  ".NAN"]

def isReal (word : List Char) : Bool :=
  String.ofList word ∈ realNames || (word.any Char.isDigit && (Double.read? word).isSome)

def marked? : List Char → Option Node
  | '0' :: 'x' :: digits => integer? 16 digits
  | '0' :: 'o' :: digits => integer? 8 digits
  | '+' :: digits => integer? 10 digits
  | _ => none

def ofWord (word : List Char) : Node :=
  let name := String.ofList word
  match marked? word with
  | some node => node
  | none =>
      if name = "~" ∨ name = "null" then .null
      else if name = "true" then .boolean true
      else if name = "false" then .boolean false
      else
        match integer? 10 word with
        | some node => node
        | none => if isReal word then .real name else .text name

def commonTags : String :=
  "tag:yaml.org,2002:"

def ofTagged (tag : Tag) (word : List Char) : Node :=
  let name := String.ofList word
  if tag.leading ≠ commonTags then .text name
  else
    match tag.suffix with
    | "bool" =>
        if name = "true" then .boolean true
        else if name = "false" then .boolean false
        else .bad
    | "int" => (integer? 10 word).getD .bad
    | "float" => if isReal word then .real name else .bad
    | "null" => if name = "~" ∨ name = "null" then .null else .bad
    | _ => .text name

/-- The node of a scalar.  Only a plain one has another type than a text. -/
def ofScalar (plain : Bool) (tag? : Option Tag) (text : String) : Node :=
  if !plain then .text text
  else
    match tag? with
    | some tag => ofTagged tag text.toList
    | none => ofWord text.toList

/-! ## Mappings -/

/-- The entries of a mapping whose keys and values come in turn, behind those read `before`, latest
first.  What should be a key and is bad is left out, and so is a key without a value.  No key comes
twice. -/
def entries? (before : List (Node × Node)) : List Node → Option (List (Node × Node))
  | .bad :: nodes => entries? before nodes
  | key :: value :: nodes =>
      if before.any fun (other, _) => same other key then none
      else entries? ((key, value) :: before) nodes
  | _ => some before.reverse

end Node
end DecisionLogic.Yaml
