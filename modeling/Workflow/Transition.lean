import Workflow.Process
import Workflow.Text.Blank

namespace Workflow

/-- How a step chooses its successor. A target that is missing ends the run. -/
inductive Successor
  | fixed (target : Option String)
  | branch (condition onTrue onFalse : Option String)
deriving DecidableEq, Repr

structure Transition where
  step : String
  kind : StepKind
  actor : Option String
  successor : Successor
deriving DecidableEq, Repr

def isBlankText (text : String) : Bool :=
  (Text.trim text.toList).isEmpty

namespace Step

/-- The condition; one of white space only counts as absent. -/
def condition? (s : Step) : Option String :=
  s.condition.filter fun text => !isBlankText text

/-- The choice of a step: a task goes on to its successor, a decision to one of its branches, an
end nowhere. -/
def choice (s : Step) : Successor :=
  match s.kind with
  | .task => .fixed s.successor?
  | .decision => .branch s.condition? s.branches.onTrue s.branches.onFalse
  | .finish => .fixed none

def transition (s : Step) : Transition :=
  ⟨s.id, s.kind, s.actor, s.choice⟩

end Step

def Process.transitions (p : Process) : List Transition :=
  p.steps.map Step.transition

end Workflow
