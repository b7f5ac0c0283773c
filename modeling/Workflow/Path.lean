import Workflow.Text.Lines
/-!
Paths. A path is the pieces between the slashes of its text; which slashes and dots are written
does not matter, but two dots are never folded and a dot in front counts.
-/

namespace Workflow

/-- A path. Its pieces are neither empty nor, but for the first of a relative path, a single dot. -/
structure Path where
  isAbsolute : Bool
  pieces : List String
deriving DecidableEq, Repr

namespace Path

def split (text : String) : List String :=
  (Text.splitAt '/' text.toList).map String.ofList

def isStill (piece : String) : Bool :=
  piece == "" || piece == "."

def ofText (text : String) : Path :=
  match split text with
  | "" :: rest => ⟨!rest.isEmpty, rest.filter (!isStill ·)⟩
  | "." :: rest => ⟨false, "." :: rest.filter (!isStill ·)⟩
  | pieces => ⟨false, pieces.filter (!isStill ·)⟩

def fileName? (p : Path) : Option String :=
  p.pieces.getLast?.filter fun piece => piece ≠ ".." && piece ≠ "."

/-- Parts a name at its last dot; a name has no second part if nothing stands before that dot. -/
def partName (name : String) : String × Option String :=
  match (Text.splitAt '.' name.toList).reverse with
  | ending :: before :: rest =>
    let stem := Text.joinWith ['.'] (before :: rest).reverse
    if stem.isEmpty then (name, none) else (String.ofList stem, some (String.ofList ending))
  | _ => (name, none)

def stem? (p : Path) : Option String :=
  p.fileName?.map fun name => (partName name).1

def extension? (p : Path) : Option String :=
  p.fileName?.bind fun name => (partName name).2

def join (folder path : String) : String :=
  if folder = "" || path.toList.head? = some '/' then path
  else if folder.toList.getLast? = some '/' then folder ++ path
  else folder ++ "/" ++ path

end Path

end Workflow
