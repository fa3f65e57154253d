import DecisionLogic.Suspension.PointId
import DecisionLogic.Text.Quoted

/-!
# Failures

Every way in which parsing, building, resolving or evaluating logic can go wrong, as a cause.  The
wording is in `Failure.message` alone.
-/

namespace DecisionLogic

/-- Why the values supplied for a suspension do not fit it. -/
inductive ResumeProblem where
  | unanswered (point : PointId) (operator : String)
  | unmatched (count : Nat)
  | other (text : String)
deriving DecidableEq

def ResumeProblem.message : ResumeProblem → String
  | .unanswered point operator =>
      "no value supplied for suspension point " ++ point.text ++ " (" ++ operator ++ ")"
  | .unmatched count => toString count ++ " replacement(s) do not match any suspension point"
  | .other text => text

/-- Why no options could be made: a source that cannot be read as options, or a value that is
not allowed. -/
inductive OptionsProblem where
  | unreadable
  | refused (text : String)
deriving DecidableEq

inductive Failure where
  | unknownOperator (name : String)
  | pathSecurity (path field : String)
  | mutation (path : String)
  /-- A failure of an operator's own; it is anonymous while the operator has no name. -/
  | operatorExecution (operator cause : String)
  | invalidArguments (operator text : String)
  | suspensionDisabled (operator : String)
  | resume (problem : ResumeProblem)
  | notSynchronous
  | nestingTooDeep (limit : Nat)
  | cancelled
  | options (problem : OptionsProblem)
deriving DecidableEq

namespace Failure

/-- A failure that does not yet know the name of the operator it arose in. -/
def anonymous (cause : String) : Failure :=
  .operatorExecution "" cause

/-- Attribute an anonymous failure to the operator `name`; every other failure stays as it is. -/
def within (name : String) : Failure → Failure
  | .operatorExecution operator cause =>
      if operator = "" then .operatorExecution name cause else .operatorExecution operator cause
  | failure => failure

def message : Failure → String
  | .unknownOperator name => "unknown operator: " ++ name
  | .pathSecurity path field =>
      "path " ++ Text.quoted path ++ " attempts to reach reserved field " ++ Text.quoted field
  | .mutation path => "scope is read-only: cannot write " ++ Text.quoted path
  | .operatorExecution operator cause => "operator " ++ operator ++ " failed: " ++ cause
  | .invalidArguments operator text => "invalid arguments for " ++ operator ++ ": " ++ text
  | .suspensionDisabled operator =>
      "operator " ++ operator ++ " suspended but suspension tracking is disabled"
  | .resume problem => "cannot resume: " ++ problem.message
  | .notSynchronous => "evaluation awaited an asynchronous operator in a synchronous context"
  | .nestingTooDeep limit => "logic nested deeper than " ++ toString limit ++ " levels"
  | .cancelled => "evaluation cancelled"
  | .options .unreadable => "config error"
  | .options (.refused text) => "config error: " ++ text

end Failure
end DecisionLogic
