import Workflow.Generator
import Workflow.MergeCandidate
import Workflow.Process.Json
import Workflow.Schedule
import Workflow.Settings

namespace Workflow

structure Artifacts where
  process : Process
  optimizations : Option (List String) := none
  python : Option String := none
  javascript : Option String := none
  flowchart : Option Flowchart := none
  mermaid : Option String := none
deriving DecidableEq, Repr

inductive StageOutput
  | optimizations (suggestions : List String)
  | python (code : String)
  | javascript (code : String)
  | flowchart (chart : Flowchart)
  | mermaid (diagram : String)
deriving DecidableEq, Repr

def ArtifactKind.run (k : ArtifactKind) (p : Process) (d : Direction) : StageOutput :=
  match k with
  | optimizations => .optimizations p.suggestions
  | python => .python (p.generate .python)
  | javascript => .javascript (p.generate .javascript)
  | flowchart => .flowchart p.flowchart
  | mermaid => .mermaid (p.diagram d)

namespace Artifacts

/-- Enters the output of a stage, in place of an earlier one of its kind. -/
def enter (a : Artifacts) : StageOutput → Artifacts
  | .optimizations suggestions => { a with optimizations := some suggestions }
  | .python code => { a with python := some code }
  | .javascript code => { a with javascript := some code }
  | .flowchart chart => { a with flowchart := some chart }
  | .mermaid diagram => { a with mermaid := some diagram }

def gather (p : Process) (outputs : List StageOutput) : Artifacts :=
  outputs.foldl enter { process := p }

def render? (a : Artifacts) : ArtifactKind → Option String
  | .optimizations => a.optimizations.map fun suggestions =>
    String.ofList (Text.joinWith ['\n'] (suggestions.map String.toList))
  | .python => a.python
  | .javascript => a.javascript
  | .flowchart => a.flowchart.map fun chart => chart.toJson.pretty
  | .mermaid => a.mermaid

/-- The JSON form; artifacts that were not made are left out. -/
def toJson (a : Artifacts) : Json :=
  .object (("process", a.process.toJson) ::
    ((a.optimizations.map fun suggestions => ("optimizations", Json.ofTexts suggestions)).toList ++
      (a.python.map fun code => ("python", Json.string code)).toList ++
      (a.javascript.map fun code => ("javascript", Json.string code)).toList ++
      (a.flowchart.map fun chart => ("flowchart", chart.toJson)).toList ++
      (a.mermaid.map fun diagram => ("mermaid", Json.string diagram)).toList))

end Artifacts

namespace Settings

def outputs (s : Settings) (p : Process) : List StageOutput :=
  s.emit.map fun k => k.run p s.direction

def compile (s : Settings) (text : String) : Except Failure Artifacts :=
  match acceptProcess s.reader text with
  | .error fault => .error fault
  | .ok p => .ok (Artifacts.gather p (s.outputs p))

/-- Compiles a text with all stages side by side; `schedule` says in which order they end. -/
def compileScheduled (s : Settings) (schedule : Schedule) (text : String) :
    Except Failure Artifacts :=
  match acceptProcess s.reader text with
  | .error fault => .error fault
  | .ok p => .ok (Artifacts.gather p (schedule.order (s.outputs p)))

end Settings

end Workflow
