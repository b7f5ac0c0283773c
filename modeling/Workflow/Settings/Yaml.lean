import Workflow.Settings
import Workflow.Yaml.Content

namespace Workflow

namespace Settings

open Yaml (Anchors Node localName? isNullWord)

structure Given where
  reader : Option Reader := none
  emit : Option (List ArtifactKind) := none
  direction : Option Direction := none

def Given.complete (g : Given) : Settings :=
  { reader := g.reader.getD .yaml, emit := g.emit.getD ArtifactKind.all,
    direction := g.direction.getD .topDown }

/-- Reads one of several names. It is the text of a scalar or, if the scalar has a tag with a name,
that name, and then the scalar is null. -/
def readChoice? {α : Type} (ofName? : String → Option α) : Node → Option α
  | .scalar p plain text =>
    match p.tag.bind localName? with
    | some name => if plain && (text.isEmpty || isNullWord text) then ofName? name else none
    | none => ofName? (String.ofList text)
  | _ => none

def choice? {α : Type} (a : Anchors) (ofName? : String → Option α) (x : Node) : Option α :=
  (a.target? x).bind (readChoice? ofName?)

def readKinds? (a : Anchors) : Node → Option (List ArtifactKind)
  | .sequence _ items => items.mapM (choice? a ArtifactKind.ofName?)
  | .scalar _ true [] => some []
  | _ => none

/-- Takes one entry in. The same setting must not be given twice. -/
def Given.take? (a : Anchors) (g : Given) (key : String) (value : Node) : Option Given :=
  match key with
  | "reader" =>
    if g.reader.isSome then none
    else (choice? a Reader.ofName? value).map fun r => { g with reader := some r }
  | "emit" =>
    if g.emit.isSome then none
    else ((a.target? value).bind (readKinds? a)).map fun kinds => { g with emit := some kinds }
  | "diagram_direction" =>
    if g.direction.isSome then none
    else (choice? a Direction.ofCode? value).map fun d => { g with direction := some d }
  | _ => some g

def readKey? (a : Anchors) (x : Node) : Option String :=
  match a.target? x with
  | some (.scalar _ _ text) => some (String.ofList text)
  | _ => none

def Given.ofEntries? (a : Anchors) (entries : List (Node × Node)) : Option Given :=
  entries.foldlM (fun g (key, value) => (readKey? a key).bind fun key => g.take? a key value) {}

/-- The settings of a node: a mapping, or an empty scalar for the defaults. -/
def ofNode? (a : Anchors) : Node → Option Settings
  | .mapping _ entries => (Given.ofEntries? a entries).map Given.complete
  | .scalar _ true [] => some {}
  | _ => none

/-- The settings of a document; one without content gives the defaults. -/
def ofDocument? (d : Yaml.Document) : Option Settings :=
  match d.root with
  | none => some {}
  | some root => ofNode? (Anchors.of root) root

def read? (text : String) : Option Settings :=
  (Yaml.Document.read? text.toList).bind ofDocument?

def malformedMessage : String :=
  "Failed to deserialize pipeline config"

def toJson (s : Settings) : Json :=
  .object [("reader", .string s.reader.name), ("emit", Json.ofTexts (s.emit.map ArtifactKind.name)),
    ("diagram_direction", .string s.direction.code)]

end Settings

end Workflow
