import Workflow.Process

namespace Workflow

/-- Two neighbouring tasks of one actor. -/
structure MergeCandidate where
  first : String
  second : String
  actor : String
deriving DecidableEq, Repr

namespace MergeCandidate

def text (c : MergeCandidate) : String :=
  "Steps '" ++ c.first ++ "' and '" ++ c.second ++ "' performed by '" ++ c.actor ++
  "' could be merged"

def ofPair? (s t : Step) : Option MergeCandidate :=
  if s.kind = .task ∧ t.kind = .task then
    match s.performer? with
    | some actor => if t.performer? = some actor then some ⟨s.id, t.id, actor⟩ else none
    | none => none
  else none

def ofSteps : List Step → List MergeCandidate
  | s :: t :: r => (ofPair? s t).toList ++ ofSteps (t :: r)
  | _ => []

end MergeCandidate

namespace Process

def mergeCandidates (p : Process) : List MergeCandidate :=
  MergeCandidate.ofSteps p.steps

def suggestions (p : Process) : List String :=
  p.mergeCandidates.map MergeCandidate.text

end Process

end Workflow
