import DecisionLogic.Logic

/-!
# Operator input

An operator receives either the value of its arguments or the argument tree itself.
-/

namespace DecisionLogic

inductive Input where
  | evaluated (value : Json)
  | raw (args : Logic)

namespace Input

def toJson : Input → Json
  | .evaluated value => value
  | .raw args => args.toJson

/-- The input as a list of arguments; a value that is not an array is one argument. -/
def args (input : Input) : List Json :=
  match input.toJson with
  | .array items => items
  | value => [value]

/-- The argument nodes of an operator that evaluates its arguments itself.  Values that come
evaluated are literals. -/
def argumentNodes : Input → List Logic
  | .raw args => args.arguments
  | .evaluated (.array items) => items.map .literal
  | .evaluated value => [.literal value]

end Input

/-- Where an operator comes from: the standard ones or the user of an engine. -/
inductive Origin where
  | standard
  | custom
deriving DecidableEq

structure Invocation where
  operator : String
  origin : Origin
  input : Input

end DecisionLogic
