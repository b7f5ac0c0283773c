import Workflow.Document.Shape
import Workflow.Outline.Block

namespace Workflow

inductive Reader
  | yaml
  | minimal
deriving DecidableEq, Repr

namespace Reader

def name : Reader → String
  | yaml => "yaml"
  | minimal => "minimal"

def ofName? : String → Option Reader
  | "yaml" => some yaml
  | "minimal" => some minimal
  | _ => none

def unknownMessage (name : String) : String :=
  "unknown reader '" ++ name ++ "', expected 'yaml' or 'minimal'"

end Reader

namespace Outline

def readTree (text : List Char) : Except Malformed Tree :=
  match significantLines text with
  | .error fault => .error (.line fault)
  | .ok [] => .error .rootNotMapping
  | .ok lines =>
    match readBlock lines with
    | .error fault => .error (.line fault)
    | .ok tree => .ok tree

end Outline

def loadTree (reader : Reader) (text : String) : Except Malformed Tree :=
  let chars := text.toList
  if Outline.hasMappingHead chars then
    match reader with
    | .yaml =>
      match Yaml.readTree? chars with
      | some tree => .ok tree
      | none => .error .yaml
    | .minimal => Outline.readTree chars
  else .error .rootNotMapping

/-- Reads the process of a text, without checking its invariants. -/
def readProcess (reader : Reader) (text : String) : Except Malformed Process :=
  match loadTree reader text with
  | .ok tree => tree.toProcess
  | .error fault => .error fault

def acceptProcess (reader : Reader) (text : String) : Except Failure Process :=
  match readProcess reader text with
  | .error fault => .error (.malformed fault)
  | .ok p =>
    match p.check with
    | .error fault => .error (.violation fault)
    | .ok () => .ok p

end Workflow
