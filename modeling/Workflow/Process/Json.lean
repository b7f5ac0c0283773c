import Workflow.Json
import Workflow.Process
/-!
The JSON form of a process. Fields without a value are left out when it is written; reading also
takes null for them, ignores fields it does not know, and accepts a record as the list of its
fields in order.
-/

namespace Workflow

/-- A field that is written only if it has a value. -/
def optionalField (name : String) : Option String → List (String × Json)
  | some text => [(name, .string text)]
  | none => []

def Branches.toJson (b : Branches) : Json :=
  .object (b.toList.map fun (label, target) => (label.name, .string target))

def Step.toJson (s : Step) : Json :=
  .object <|
    [("id", .string s.id), ("type", .string s.kind.name)] ++
    optionalField "actor" s.actor ++ optionalField "next" s.next ++
    optionalField "condition" s.condition ++
    (if s.branches = {} then [] else [("branches", s.branches.toJson)])

def Process.toJson (p : Process) : Json :=
  .object [("name", .string p.name), ("steps", .array (p.steps.map Step.toJson))]

def Json.text? : Json → Option String
  | .string s => some s
  | _ => none

def Json.optionalText? : Json → Option (Option String)
  | .null => some none
  | .string s => some (some s)
  | _ => none

/-- A kind: its name, or an object whose only field has that name and the value null. -/
def Json.toStepKind? : Json → Option StepKind
  | .string name => StepKind.ofName? name
  | .object [(name, .null)] => StepKind.ofName? name
  | _ => none

/-- Enters branches one by one; every name has to be a label and every target a text. -/
def Branches.ofFields? : List (String × Json) → Option Branches
  | fields =>
    fields.foldlM (fun b (name, target) => do
      some (b.set (← BranchLabel.ofName? name) (← target.text?))) {}

def Json.toBranches? : Json → Option Branches
  | .object fields => Branches.ofFields? fields
  | _ => none

/-- The fields of a record, found by name in an object or by position in a list. -/
def Json.record? (names : List String) : Json → Option (String → Option Json)
  | .object fields => some fun name => fields.lookup name
  | .array items =>
    if items.length ≤ names.length then some fun name => (names.zip items).lookup name else none
  | _ => none

def Json.toStep? (j : Json) : Option Step := do
  let field ← j.record? ["id", "type", "actor", "next", "condition", "branches"]
  let optional (name : String) : Option (Option String) := ((field name).getD .null).optionalText?
  some {
    id := ← (← field "id").text?
    kind := ← (← field "type").toStepKind?
    actor := ← optional "actor"
    next := ← optional "next"
    condition := ← optional "condition"
    branches := ← ((field "branches").getD (.object [])).toBranches? }

def Json.toSteps? : Json → Option (List Step)
  | .array items => items.mapM Json.toStep?
  | _ => none

def Json.toProcess? (j : Json) : Option Process := do
  let field ← j.record? ["name", "steps"]
  some { name := ← (← field "name").text?, steps := ← (← field "steps").toSteps? }

end Workflow
