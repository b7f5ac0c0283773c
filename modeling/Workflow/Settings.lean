import Workflow.Artifact.Kind
import Workflow.Diagram
import Workflow.Document

namespace Workflow

/-- The settings of a compilation. Artifacts are made in the order in which they are listed. -/
structure Settings where
  reader : Reader := .yaml
  emit : List ArtifactKind := ArtifactKind.all
  direction : Direction := .topDown
deriving DecidableEq, Repr

def Settings.wants (s : Settings) (k : ArtifactKind) : Bool :=
  s.emit.contains k

end Workflow
