import Workflow.Document.Fault
import Workflow.Tree

namespace Workflow

/-- The text of a scalar field; absent and null fields have none. -/
def Tree.textField (entries : List (Tree × Tree)) (name : String) :
    Except Malformed (Option String) :=
  match Tree.field? name entries with
  | none => .ok none
  | some .null => .ok none
  | some value =>
    match value.scalarText? with
    | some text => .ok (some text)
    | none => .error (.nonScalarField name)

/-- Reads the fields of a step after its id and kind: the branches first, in the order of their
labels. -/
def Tree.toStepFields (entries : List (Tree × Tree)) (id : String) (kind : StepKind) :
    Except Malformed Step := do
  let onTrue ← Tree.textField entries BranchLabel.onTrue.name
  let onFalse ← Tree.textField entries BranchLabel.onFalse.name
  let actor ← Tree.textField entries "actor"
  let next ← Tree.textField entries "next"
  let condition ← Tree.textField entries "condition"
  .ok { id, kind, actor, next, condition, branches := { onTrue, onFalse } }

def Tree.toStep (raw : Tree) : Except Malformed Step :=
  match raw.entries? with
  | none => .error .missingIdOrType
  | some entries => do
    let id ← Tree.textField entries "id"
    let kind ← Tree.textField entries "type"
    match id, kind with
    | some id, some kind =>
      match StepKind.ofName? kind with
      | some kind => Tree.toStepFields entries id kind
      | none => .error (.unknownStepType id kind)
    | _, _ => .error .missingIdOrType

/-- Reads steps in order; the first that is malformed decides. -/
def Tree.toSteps : List Tree → Except Malformed (List Step)
  | [] => .ok []
  | raw :: rest => do
    let step ← raw.toStep
    let steps ← Tree.toSteps rest
    .ok (step :: steps)

def Tree.stepsField (entries : List (Tree × Tree)) : Except Malformed (List Step) :=
  match Tree.field? "steps" entries with
  | none => .ok []
  | some .null => .ok []
  | some (.sequence items) => Tree.toSteps items
  | some _ => .error .stepsNotSequence

def Tree.toProcess (root : Tree) : Except Malformed Process :=
  match root.entries? with
  | none => .error .rootNotMapping
  | some entries =>
    match Tree.field? "process" entries with
    | none => .error .missingProcess
    | some process =>
      match process.entries? with
      | none => .error .processNotMapping
      | some entries => do
        let name ← Tree.textField entries "name"
        let steps ← Tree.stepsField entries
        .ok ⟨name.getD "", steps⟩

end Workflow
