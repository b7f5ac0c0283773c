namespace Workflow

inductive ArtifactKind
  | optimizations
  | python
  | javascript
  | flowchart
  | mermaid
deriving DecidableEq, Repr

namespace ArtifactKind

def all : List ArtifactKind :=
  [optimizations, python, javascript, flowchart, mermaid]

def name : ArtifactKind → String
  | optimizations => "optimizations"
  | python => "python"
  | javascript => "javascript"
  | flowchart => "flowchart"
  | mermaid => "mermaid"

def ofName? (name : String) : Option ArtifactKind :=
  all.find? (·.name = name)

def unknownMessage (name : String) : String :=
  "unknown artifact '" ++ name ++ "'"

def suffix : ArtifactKind → String
  | optimizations => ".optimizations.txt"
  | python => ".py"
  | javascript => ".js"
  | flowchart => ".flowchart.json"
  | mermaid => ".mmd"

def fileName (k : ArtifactKind) (stem : String) : String :=
  stem ++ k.suffix

theorem ofName?_name (k : ArtifactKind) : ofName? k.name = some k := by
  cases k <;> rfl

end ArtifactKind

end Workflow
