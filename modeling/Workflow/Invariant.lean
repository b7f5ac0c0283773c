import Workflow.Process

namespace Workflow

inductive Violation
  | duplicateId (id : String)
  | missingActor (id : String)
  | unknownNext (step target : String)
  | unknownBranch (step : String) (label : BranchLabel) (target : String)
  | lastNotEnd
deriving DecidableEq, Repr

namespace Violation

def message : Violation → String
  | duplicateId id => "duplicate step id '" ++ id ++ "'"
  | missingActor id => "task '" ++ id ++ "' requires an actor"
  | unknownNext step target =>
    "step '" ++ step ++ "' references unknown next step '" ++ target ++ "'"
  | unknownBranch step label target =>
    "step '" ++ step ++ "' branch '" ++ label.name ++ "' references unknown step '" ++ target ++ "'"
  | lastNotEnd => "last step must be of type 'end'"

end Violation

def Step.lacksActor (s : Step) : Bool :=
  s.kind = .task && s.performer?.isNone

/-- The first step whose id is among `seen` or the ids before it, or that lacks its actor. At one
step the id comes first. -/
def firstUnfit? (seen : List String) : List Step → Option Violation
  | [] => none
  | s :: r =>
    if s.id ∈ seen then some (.duplicateId s.id)
    else if s.lacksActor then some (.missingActor s.id)
    else firstUnfit? (s.id :: seen) r

/-- The first reference of a step that is not among `ids`: its successor, then its branches. -/
def Step.dangling? (ids : List String) (s : Step) : Option Violation :=
  match s.successor?.filter (· ∉ ids) with
  | some target => some (.unknownNext s.id target)
  | none =>
    (s.branches.toList.find? fun (_, target) => target ∉ ids).map fun (label, target) =>
      .unknownBranch s.id label target

def unfinished? (steps : List Step) : Option Violation :=
  match steps.getLast? with
  | some last => if last.kind = .finish then none else some .lastNotEnd
  | none => none

namespace Process

def ids (p : Process) : List String :=
  p.steps.map Step.id

/-- The first violation: ids and actors over all steps, then references over all steps, then the
last step. -/
def violation? (p : Process) : Option Violation :=
  (firstUnfit? [] p.steps).or <|
    (p.steps.findSome? (Step.dangling? p.ids)).or (unfinished? p.steps)

def check (p : Process) : Except Violation Unit :=
  match p.violation? with
  | some v => .error v
  | none => .ok ()

end Process

end Workflow
