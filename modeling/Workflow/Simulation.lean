import Workflow.Condition.Evaluate
import Workflow.Document.Fault
import Workflow.Transition

namespace Workflow

structure Yielded where
  step : String
  next : Option String
deriving DecidableEq, Repr

/-- The successor that a step chooses; a decision without a condition goes to its second branch. -/
def Successor.choose (holds : String → Except Condition.Fault Bool) :
    Successor → Except Condition.Fault (Option String)
  | .fixed target => .ok target
  | .branch none _ onFalse => .ok onFalse
  | .branch (some condition) onTrue onFalse =>
    match holds condition with
    | .ok taken => .ok (if taken then onTrue else onFalse)
    | .error fault => .error fault

def Transition.run (vars : Bindings) (t : Transition) : Except ConditionFailure Yielded :=
  match t.successor.choose (Condition.holds vars) with
  | .ok next => .ok ⟨t.step, next⟩
  | .error fault => .error ⟨t.step, fault.message⟩

/-- Runs transitions in order, up to the first that fails. -/
def runTransitions (vars : Bindings) : List Transition → Except ConditionFailure (List Yielded)
  | [] => .ok []
  | t :: rest =>
    match t.run vars with
    | .error failure => .error failure
    | .ok first =>
      match runTransitions vars rest with
      | .error failure => .error failure
      | .ok others => .ok (first :: others)

def Process.simulate (p : Process) (vars : Bindings) : Except ConditionFailure (List Yielded) :=
  runTransitions vars p.transitions

end Workflow
