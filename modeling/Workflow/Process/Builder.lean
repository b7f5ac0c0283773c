import Workflow.Process

namespace Workflow

structure Builder where
  name : String
  steps : List Step := []
deriving DecidableEq, Repr

namespace Builder

def add (b : Builder) (s : Step) : Builder :=
  { b with steps := b.steps ++ [s] }

def task (b : Builder) (id actor : String) : Builder :=
  b.add { id, kind := .task, actor := some actor }

def decision (b : Builder) (id condition : String) : Builder :=
  b.add { id, kind := .decision, condition := some condition }

def finish (b : Builder) (id : String) : Builder :=
  b.add { id, kind := .finish }

def modifyLast (f : Step → Step) : List Step → List Step
  | [] => []
  | [s] => [f s]
  | s :: r => s :: modifyLast f r

def modify (b : Builder) (f : Step → Step) : Builder :=
  { b with steps := modifyLast f b.steps }

def next (b : Builder) (target : String) : Builder :=
  b.modify fun s => { s with next := some target }

def condition (b : Builder) (text : String) : Builder :=
  b.modify fun s => { s with condition := some text }

def branch (b : Builder) (label : BranchLabel) (target : String) : Builder :=
  b.modify fun s => { s with branches := s.branches.set label target }

def build (b : Builder) : Process :=
  ⟨b.name, b.steps⟩

/-- A modifier reaches the step just added and no other. -/
theorem steps_modify_add (b : Builder) (s : Step) (f : Step → Step) :
    ((b.add s).modify f).steps = b.steps ++ [f s] := by
  show modifyLast f (b.steps ++ [s]) = b.steps ++ [f s]
  induction b.steps with
  | nil => rfl
  | cons t r ih =>
    cases r with
    | nil => rfl
    | cons u q => simpa [modifyLast] using ih

end Builder

inductive Builder.Action
  | task (id actor : String)
  | decision (id condition : String)
  | finish (id : String)
  | add (step : Step)
  | next (target : String)
  | condition (text : String)
  | branch (label : BranchLabel) (target : String)
deriving DecidableEq, Repr

def Builder.act (b : Builder) : Builder.Action → Builder
  | .task id actor => b.task id actor
  | .decision id condition => b.decision id condition
  | .finish id => b.finish id
  | .add step => b.add step
  | .next target => b.next target
  | .condition text => b.condition text
  | .branch label target => b.branch label target

end Workflow
