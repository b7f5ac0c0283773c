import Workflow.Generator.Dialect
import Workflow.Transition
import Workflow.Text.Lines

namespace Workflow.Generator

def nextVariable : String := "next_step"

def indented (depth : Nat) (line : String) : String :=
  String.ofList (List.replicate (4 * depth) ' ') ++ line

/-- The literal of a target, or the null of the dialect. -/
def targetLiteral (d : Dialect) : Option String → String
  | some id => quote id
  | none => d.null

def commentLine (d : Dialect) (text : String) : String :=
  indented 1 (d.comment (singleLine text))

def assignLine (d : Dialect) (depth : Nat) (target : Option String) : String :=
  indented depth (d.assign nextVariable (targetLiteral d target))

/-- The test of a decision; without a condition it is false. -/
def test (d : Dialect) : Option String → String
  | some condition => d.evaluate condition
  | none => d.falsehood

def actorLines (d : Dialect) (t : Transition) : List String :=
  if t.kind = .task then [commentLine d ("actor: " ++ t.actor.getD "")] else []

def choiceLines (d : Dialect) (t : Transition) : List String :=
  match t.successor with
  | .fixed target => actorLines d t ++ [assignLine d 1 target]
  | .branch condition onTrue onFalse =>
    [indented 1 (d.ifOpen (test d condition)), assignLine d 2 onTrue, indented 1 d.elseOpen,
      assignLine d 2 onFalse] ++ (d.ifClose.map (indented 1)).toList

def stepLines (d : Dialect) (t : Transition) : List String :=
  commentLine d (t.step ++ " (" ++ t.kind.name ++ ")") ::
    (choiceLines d t ++ [indented 1 (d.yieldPair (quote t.step) nextVariable)])

def bodyLines (d : Dialect) : List Transition → List String
  | [] => d.emptyBody.map (indented 1)
  | ts => ts.flatMap (stepLines d)

def allLines (d : Dialect) (p : Process) : List String :=
  d.preamble ++ d.functionOpen :: indented 1 (d.declare nextVariable d.null) ::
    (bodyLines d p.transitions ++ d.functionClose.toList)

end Workflow.Generator

namespace Workflow

def Process.generate (p : Process) (d : Dialect) : String :=
  String.ofList (Text.joinWith ['\n'] ((Generator.allLines d p).map String.toList))

end Workflow
