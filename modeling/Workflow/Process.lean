import Workflow.Table

namespace Workflow

inductive StepKind
  | task
  | decision
  | finish
deriving DecidableEq, Repr

namespace StepKind

def name : StepKind → String
  | task => "task"
  | decision => "decision"
  | finish => "end"

def ofName? : String → Option StepKind
  | "task" => some task
  | "decision" => some decision
  | "end" => some finish
  | _ => none

theorem ofName?_name (k : StepKind) : ofName? k.name = some k := by
  cases k <;> rfl

end StepKind

inductive BranchLabel
  | onTrue
  | onFalse
deriving DecidableEq, Repr

namespace BranchLabel

def name : BranchLabel → String
  | onTrue => "then"
  | onFalse => "else"

def ofName? : String → Option BranchLabel
  | "then" => some onTrue
  | "else" => some onFalse
  | _ => none

def all : List BranchLabel := [onTrue, onFalse]

end BranchLabel

structure Branches where
  onTrue : Option String := none
  onFalse : Option String := none
deriving DecidableEq, Repr

namespace Branches

def get? (b : Branches) : BranchLabel → Option String
  | .onTrue => b.onTrue
  | .onFalse => b.onFalse

def set (b : Branches) (label : BranchLabel) (target : String) : Branches :=
  match label with
  | .onTrue => { b with onTrue := some target }
  | .onFalse => { b with onFalse := some target }

/-- The labels that have a target, each with its target, in the order of the labels. -/
def toList (b : Branches) : List (BranchLabel × String) :=
  BranchLabel.all.filterMap fun label => (b.get? label).map (label, ·)

theorem get?_set_self (b : Branches) (l : BranchLabel) (t : String) :
    (b.set l t).get? l = some t := by
  cases l <;> rfl

theorem get?_set_of_ne (b : Branches) {l m : BranchLabel} (t : String) (h : m ≠ l) :
    (b.set l t).get? m = b.get? m := by
  cases l <;> cases m <;> first | rfl | exact absurd rfl h

end Branches

structure Step where
  id : String
  kind : StepKind
  actor : Option String := none
  next : Option String := none
  condition : Option String := none
  branches : Branches := {}
deriving DecidableEq, Repr

def nonEmpty? (text : Option String) : Option String :=
  text.filter (· ≠ "")

namespace Step

/-- The unconditional successor; an empty one counts as absent. -/
def successor? (s : Step) : Option String :=
  nonEmpty? s.next

/-- The actor; an empty one counts as absent. -/
def performer? (s : Step) : Option String :=
  nonEmpty? s.actor

end Step

structure Process where
  name : String
  steps : List Step
deriving DecidableEq, Repr

namespace Process

/-- The first step with an id. -/
def step? (p : Process) (id : String) : Option Step :=
  p.steps.find? (·.id = id)

/-- The steps under their ids; of steps with one id the last stays. -/
def stepMap (p : Process) : Table String Step :=
  p.steps.foldl (fun m s => m.insert s.id s) .empty

end Process

end Workflow
