import Workflow.Invariant
import Workflow.Outline.Fault

namespace Workflow

inductive Malformed
  | rootNotMapping
  | missingProcess
  | processNotMapping
  | stepsNotSequence
  | missingIdOrType
  | unknownStepType (step kind : String)
  | nonScalarField (field : String)
  | line (fault : Outline.Fault)
  | yaml
deriving DecidableEq, Repr

def Malformed.message : Malformed → String
  | rootNotMapping => "root must be a mapping"
  | missingProcess => "root must contain 'process'"
  | processNotMapping => "'process' must be a mapping"
  | stepsNotSequence => "'steps' must be a list"
  | missingIdOrType => "each step requires 'id' and 'type'"
  | unknownStepType step kind => "step '" ++ step ++ "' has unknown type '" ++ kind ++ "'"
  | nonScalarField field => "field '" ++ field ++ "' must be a scalar"
  | line fault => "line " ++ toString fault.line ++ ": " ++ fault.problem.message
  | yaml => "invalid YAML: " ++ yamlDetail

structure ConditionFailure where
  step : String
  reason : String
deriving DecidableEq, Repr

def ConditionFailure.message (f : ConditionFailure) : String :=
  "condition of decision '" ++ f.step ++ "' could not be evaluated: " ++ f.reason

inductive Failure
  | malformed (fault : Malformed)
  | violation (fault : Violation)
  | condition (fault : ConditionFailure)
deriving DecidableEq, Repr

/-- The text of a failure; its first words tell errors of syntax from errors of logic. -/
def Failure.message : Failure → String
  | malformed fault => "syntax error: " ++ fault.message
  | violation fault => "logical error: " ++ fault.message
  | condition fault => "simulation error: " ++ fault.message

end Workflow
