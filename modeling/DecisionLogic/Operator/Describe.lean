import DecisionLogic.Operator.Registry

/-!
# How operators are shown

The forms in which operators, annotations and registries are shown to a person.
-/

namespace DecisionLogic

def describeFields (name : String) (fields : List (String × String)) : String :=
  name ++ " \x7b " ++ ", ".intercalate (fields.map fun (key, value) => key ++ ": " ++ value) ++
    " \x7d"

def Operator.describe (operator : Operator) : String :=
  describeFields "Operator" [
    ("method", toString operator.body.hasImmediate),
    ("async_method", toString operator.body.hasAwaiting),
    ("traverse", toString operator.traverse),
    ("deterministic", toString operator.deterministic),
    ("yields", toString operator.yields),
    ("use_context", toString operator.useContext),
    ("raw_data", toString operator.rawData),
    ("sync", toString operator.sync)]

def Annotations.describe (annotations : Annotations) : String :=
  describeFields "Annotations" [
    ("deterministic", toString annotations.deterministic),
    ("sync", match annotations.sync with
      | none => "None"
      | some value => "Some(" ++ toString value ++ ")"),
    ("yields", toString annotations.yields),
    ("use_context", toString annotations.useContext),
    ("raw_data", toString annotations.rawData)]

def Registry.describe (registry : Registry) : String :=
  describeFields "OperatorRegistry" [
    ("operators", "[" ++ ", ".intercalate (registry.names.map Text.quoted) ++ "]")]

end DecisionLogic
