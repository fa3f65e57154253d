import DecisionLogic.Proofs.Resumption.Standing
import DecisionLogic.Standard.Iteration

/-!
# The meaning of logic

A meaning is what an operator does, without the world it does it in.  A traversing operator means a
reply to each input in each scope; the other standard operators mean the way in which they have their
arguments evaluated.  Given the meanings of all names, `Meaning.judge` evaluates a tree: as the
engine does, but without polls, and with the arguments that a suspension keeps read back in.
-/

namespace DecisionLogic

inductive Reply where
  | value (value : Json)
  /-- The operator yields. -/
  | asks
  | fails

inductive Meaning where
  | traversing (reply : Json → Scope → Reply)
  | data
  /-- The first value with truth value `stop`, or else the last one. -/
  | decide (stop : Bool)
  | branch
  | map
  | filter
  | reduce
  /-- Whether some item has truth value `stop`. -/
  | anyAll (stop : Bool)

/-- The second argument is evaluated for each item. -/
def Meaning.iterates : Meaning → Bool
  | .map => true
  | .filter => true
  | .reduce => true
  | .anyAll _ => true
  | _ => false

def Reply.standing (f : Json → Json) (input : Json) : Reply → Judgement Standing
  | .value x => pure (.done x)
  | .asks => pure (.waits 1 (.literal (f input)))
  | .fails => .fails

def Reply.judge (f : Json → Json) (name : String) (input : Json) (reply : Reply) :
    Judgement Standing :=
  (reply.standing f input).after {(name, input)}

/-- The value, where waiting is no option. -/
def Judgement.value (judgement : Judgement Standing) : Judgement Json := do
  match ← judgement with
  | .done x => return x
  | .waits _ _ => .fails

namespace Meaning

open Standard (truthy stepData)

/-- The operator waits with its first argument; those behind it were not reached. -/
def waitsAt (name : String) (points : Nat) (next : Logic) (unreached : List Logic) : Standing :=
  .waits points (.operation name (.sequence (next :: unreached.map Logic.reparse)))

section Arguments

variable (evaluate : Logic → Judgement Standing) (name : String)

def deciding (stop : Bool) (last : Json) : List Logic → Judgement Standing
  | [] => return .done last
  | node :: rest => do
      match ← evaluate node with
      | .done value => if truthy value == stop then return .done value else deciding stop value rest
      | .waits points next => return waitsAt name points next rest

def branching : List Logic → Judgement Standing
  | [] => return .done .null
  | [otherwise] => evaluate otherwise
  | condition :: result :: rest => do
      match ← evaluate condition with
      | .done value => if truthy value then evaluate result else branching rest
      | .waits points next => return waitsAt name points next (result :: rest)

def itemsOf : Json → List Json
  | .array items => items
  | _ => []

/-- The items that the first argument gives are taken up by `next`. -/
def source (next : List Json → Judgement Standing) : List Logic → Judgement Standing
  | [] => next []
  | node :: rest => do
      match ← evaluate node with
      | .done value => next (itemsOf value)
      | .waits points logic => return waitsAt name points logic rest

end Arguments

section Items

variable (body : Scope → Judgement Json) (whole : Scope)

def mapping (items : List Json) : Judgement Standing := do
  let values ← .all (items.map fun item => body (whole.child item))
  return .done (.array values)

def kept (items values : List Json) : List Json :=
  (items.zip values).filterMap fun (item, value) => if truthy value then some item else none

def filtering (items : List Json) : Judgement Standing := do
  let values ← .all (items.map fun item => body (whole.child item))
  return .done (.array (kept items values))

def folding (accumulator : Json) : List Json → Judgement Standing
  | [] => return .done accumulator
  | current :: rest => do
      let value ← body (whole.child (stepData accumulator current))
      folding value rest

def searching (stop : Bool) : List Json → Judgement Standing
  | [] => return .done (.bool !stop)
  | item :: rest => do
      let value ← body (whole.child item)
      if truthy value == stop then return .done (.bool stop) else searching stop rest

end Items

def bodyOf (arguments : List Logic) : Logic :=
  arguments.getD 1 (.literal .null)

/-- A fold whose third argument, if there is one, gives the value to start with. -/
def reducing (evaluate : Logic → Judgement Standing) (name : String)
    (body : Scope → Judgement Json) (scope : Scope) (arguments : List Logic) (items : List Json) :
    Judgement Standing :=
  let whole := scope.child (.array items)
  match arguments[2]? with
  | none =>
      match items with
      | [] => return .done .null
      | first :: rest => folding body whole first rest
  | some node => do
      match ← evaluate node with
      | .done initial => folding body whole initial items
      | .waits points next =>
          return .waits points (.operation name (.sequence
            [.literal (.array items), (bodyOf arguments).reparse, next]))

def bodyValue (evaluate : Logic → Scope → Judgement Standing) (args : Logic) (scope : Scope) :
    Judgement Json :=
  (evaluate (bodyOf args.arguments) scope).value

def operation (f : Json → Json) (evaluate : Logic → Scope → Judgement Standing) (name : String)
    (args : Logic) (scope : Scope) : Meaning → Judgement Standing
  | .traversing reply => do
      match ← evaluate args scope with
      | .done value => (reply value scope).judge f name value
      | .waits points next => return .waits points (.operation name next)
  | .data => return .done args.toJson
  | .decide stop => deciding (evaluate · scope) name stop .null args.arguments
  | .branch => branching (evaluate · scope) name args.arguments
  | .map =>
      source (evaluate · scope) name
        (fun items => mapping (bodyValue evaluate args) (scope.child (.array items)) items)
        args.arguments
  | .filter =>
      source (evaluate · scope) name
        (fun items => filtering (bodyValue evaluate args) (scope.child (.array items)) items)
        args.arguments
  | .reduce =>
      source (evaluate · scope) name
        (reducing (evaluate · scope) name (bodyValue evaluate args) scope args.arguments)
        args.arguments
  | .anyAll stop =>
      source (evaluate · scope) name
        (fun items => searching (bodyValue evaluate args) (scope.child (.array items)) stop items)
        args.arguments

/-- How an iteration takes up its items. -/
def takeUp (evaluate : Logic → Scope → Judgement Standing) (name : String) (args : Logic)
    (scope : Scope) (meaning : Meaning) (items : List Json) : Judgement Standing :=
  match meaning with
  | .map => mapping (bodyValue evaluate args) (scope.child (.array items)) items
  | .filter => filtering (bodyValue evaluate args) (scope.child (.array items)) items
  | .reduce =>
      reducing (evaluate · scope) name (bodyValue evaluate args) scope args.arguments items
  | .anyAll stop => searching (bodyValue evaluate args) (scope.child (.array items)) stop items
  | _ => .fails

theorem operation_of_iterates {f : Json → Json} {evaluate : Logic → Scope → Judgement Standing}
    {name : String} {args : Logic} {scope : Scope} {meaning : Meaning} (hiterates : meaning.iterates = true) :
    meaning.operation f evaluate name args scope =
      source (evaluate · scope) name (takeUp evaluate name args scope meaning) args.arguments := by
  cases meaning with
  | map => rfl
  | filter => rfl
  | reduce => rfl
  | anyAll stop => rfl
  | _ => cases hiterates

/-- Another first argument does not change how the items are taken up. -/
theorem takeUp_first {evaluate : Logic → Scope → Judgement Standing} {name : String} {args : Logic}
    {scope : Scope} {meaning : Meaning} {node : Logic} {rest : List Logic}
    (hnode : args.arguments = node :: rest) (first : Logic) :
    takeUp evaluate name (.sequence (first :: rest)) scope meaning =
      takeUp evaluate name args scope meaning := by
  have hbody : bodyValue evaluate (.sequence (first :: rest)) = bodyValue evaluate args := by
    unfold bodyValue
    rw [hnode]
    rfl
  funext items
  unfold takeUp
  rw [hbody, hnode]
  rfl

def judge (f : Json → Json) (meanings : String → Option Meaning) :
    Nat → Logic → Scope → Judgement Standing
  | 0, _, _ => .fails
  | levels + 1, node, scope =>
      match node with
      | .literal value => return .done value
      | .sequence items => do
          let standings ← .all (items.map fun item => judge f meanings levels item scope)
          return .join standings
      | .operation name args =>
          match meanings name with
          | none => .fails
          | some meaning => meaning.operation f (judge f meanings levels) name args scope

end Meaning
end DecisionLogic
