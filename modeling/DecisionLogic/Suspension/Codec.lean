import DecisionLogic.Suspension.Basic

/-!
# The stored form of suspensions

Suspensions and outcomes are stored as JSON objects whose field `t` names the kind of node.  Reading
ignores unknown fields.  It also accepts an array with the kind and then the fields in order, and
below the root of a suspension a kind given by its number.
-/

namespace DecisionLogic

namespace SuspensionPoint

def fields (p : SuspensionPoint) : Fields Json :=
  [("id", .string p.id.text), ("operator", .string p.operator), ("input", p.input),
    ("reason", p.reason)]

def ofParts? (id operator input reason : Json) : Option SuspensionPoint :=
  match id, operator with
  | .string id, .string operator =>
      (PointId.read? id).map fun id => ⟨id, operator, input, reason⟩
  | _, _ => none

def ofFields? (fields : Fields Json) : Option SuspensionPoint := do
  ofParts? (← fields.find? "id") (← fields.find? "operator") (← fields.find? "input")
    (← fields.find? "reason")

end SuspensionPoint

namespace PartialTree

mutual

def toJson : PartialTree → Json
  | .done value => .object [("t", .string "Done"), ("value", value)]
  | .point p => .object (("t", .string "Point") :: p.fields)
  | .sequence items => .object [("t", .string "Sequence"), ("items", .array (itemsToJson items))]
  | .pending logic => .object [("t", .string "Pending"), ("logic", logic)]
  | .call operator input args =>
      .object [("t", .string "Call"), ("operator", .string operator), ("input", input),
        ("args", args.toJson)]

def itemsToJson : List PartialTree → List Json
  | [] => []
  | item :: items => item.toJson :: itemsToJson items

end

/-- The kinds of nodes; the order fixes their numbers. -/
inductive Kind where
  | done
  | point
  | sequence
  | pending
  | call
deriving DecidableEq

def Kind.ofTag? (numbered : Bool) : Json → Option Kind
  | .string "Done" => some .done
  | .string "Point" => some .point
  | .string "Sequence" => some .sequence
  | .string "Pending" => some .pending
  | .string "Call" => some .call
  | .number (.integer n) =>
      if numbered && 0 ≤ n.val then
        [Kind.done, .point, .sequence, .pending, .call][n.val.toNat]?
      else none
  | _ => none

mutual

/-- The tree that a stored node describes; `numbered` says that its kind may be a number. -/
def ofJson? (numbered : Bool) : Json → Option PartialTree
  | .object fields =>
      match (Fields.find? fields "t").bind (Kind.ofTag? numbered) with
      | none => none
      | some .done => (Fields.find? fields "value").map .done
      | some .point => (SuspensionPoint.ofFields? fields).map .point
      | some .sequence => (itemsField? fields).map .sequence
      | some .pending => (Fields.find? fields "logic").map .pending
      | some .call =>
          match Fields.find? fields "operator", Fields.find? fields "input", argsField? fields with
          | some (.string operator), some input, some args => some (.call operator input args)
          | _, _, _ => none
  | .array [tag, content] =>
      match Kind.ofTag? numbered tag with
      | some .done => some (.done content)
      | some .sequence => (ofItems? content).map .sequence
      | some .pending => some (.pending content)
      | _ => none
  | .array [tag, .string operator, input, args] =>
      match Kind.ofTag? numbered tag with
      | some .call => (ofJson? true args).map (.call operator input)
      | _ => none
  | .array [tag, id, operator, input, reason] =>
      match Kind.ofTag? numbered tag with
      | some .point => (SuspensionPoint.ofParts? id operator input reason).map .point
      | _ => none
  | _ => none

def ofItems? : Json → Option (List PartialTree)
  | .array items => ofList? items
  | _ => none

def ofList? : List Json → Option (List PartialTree)
  | [] => some []
  | item :: items =>
      match ofJson? true item, ofList? items with
      | some tree, some trees => some (tree :: trees)
      | _, _ => none

def itemsField? : List (String × Json) → Option (List PartialTree)
  | [] => none
  | (name, value) :: rest => if name = "items" then ofItems? value else itemsField? rest

def argsField? : List (String × Json) → Option PartialTree
  | [] => none
  | (name, value) :: rest => if name = "args" then ofJson? true value else argsField? rest

end

end PartialTree

namespace Suspension

def toJson (suspension : Suspension) : Json :=
  .object [("root", suspension.root.toJson)]

def ofJson? : Json → Option Suspension
  | .object fields =>
      ((Fields.find? fields "root").bind (PartialTree.ofJson? false)).map Suspension.mk
  | .array [root] => (PartialTree.ofJson? false root).map Suspension.mk
  | _ => none

end Suspension

namespace Evaluation

def toJson : Evaluation → Json
  | .done value => .object [("t", .string "Done"), ("v", value)]
  | .suspended suspension => .object [("t", .string "Suspended"), ("v", suspension.toJson)]

def ofParts? (tag content : Json) : Option Evaluation :=
  match tag with
  | .string "Done" => some (.done content)
  | .string "Suspended" => (Suspension.ofJson? content).map .suspended
  | _ => none

def ofJson? : Json → Option Evaluation
  | .object fields => do ofParts? (← Fields.find? fields "t") (← Fields.find? fields "v")
  | .array [tag, content] => ofParts? tag content
  | _ => none

end Evaluation
end DecisionLogic
