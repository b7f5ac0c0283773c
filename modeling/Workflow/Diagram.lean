import Workflow.Flowchart
import Workflow.Text.Lines

namespace Workflow

inductive Direction
  | topDown
  | leftRight
  | bottomTop
  | rightLeft
deriving DecidableEq, Repr

namespace Direction

def code : Direction → String
  | topDown => "TD"
  | leftRight => "LR"
  | bottomTop => "BT"
  | rightLeft => "RL"

def ofCode? : String → Option Direction
  | "TD" => some topDown
  | "LR" => some leftRight
  | "BT" => some bottomTop
  | "RL" => some rightLeft
  | _ => none

def upperAscii (text : String) : String :=
  String.ofList (text.toList.map Char.toUpper)

/-- Reads a direction in any case of its ASCII letters; top to bottom has a second code. On failure
gives back the text in upper case. -/
def read (text : String) : Except String Direction :=
  let upper := upperAscii text
  if upper = "TB" then .ok topDown
  else
    match ofCode? upper with
    | some d => .ok d
    | none => .error upper

end Direction

namespace Diagram

def isKeyChar (c : Char) : Bool :=
  c.isAlphanum || c == '_' || c == '-'

def isPlainId (id : String) : Bool :=
  !id.toList.isEmpty && id.toList.all isKeyChar

def plainIds (nodes : List FlowNode) : List String :=
  (nodes.map FlowNode.id).filter isPlainId

/-- Appends underscores until the key is not taken. The fuel is one more than the number of keys
that are taken, so one of the candidates is free. -/
def freeKey (taken : List String) : (fuel : Nat) → String → String
  | 0, key => key
  | fuel + 1, key => if key ∈ taken then freeKey taken fuel (key ++ "_") else key

def nodeKey (taken : List String) (position : Nat) (node : FlowNode) : String :=
  if isPlainId node.id then node.id
  else freeKey taken (taken.length + 1) ("step_" ++ toString position)

def keysFrom (taken : List String) (position : Nat) : List FlowNode → List (String × String)
  | [] => []
  | node :: nodes => (node.id, nodeKey taken position node) :: keysFrom taken (position + 1) nodes

def keys (nodes : List FlowNode) : List (String × String) :=
  keysFrom (plainIds nodes) 0 nodes

/-- The key of an id: that of the first node with this id, or the id itself if there is none. -/
def keyOf (keys : List (String × String)) (id : String) : String :=
  (keys.lookup id).getD id

def escapeInLabel (c : Char) : List Char :=
  if c = '"' then "#quot;".toList
  else if c = '#' then "#35;".toList
  else if c = '\n' || c = '\r' then [' ']
  else [c]

def labelText (text : String) : String :=
  String.ofList (text.toList.flatMap escapeInLabel)

def nodeLine (keys : List (String × String)) (n : FlowNode) : String :=
  if isPlainId n.id then n.id ++ "[" ++ n.kind.name ++ "]"
  else keyOf keys n.id ++ "[\"" ++ labelText n.id ++ " (" ++ n.kind.name ++ ")\"]"

def arrow (label : String) : String :=
  if label = "" then " --> " else " --" ++ label ++ "--> "

def edgeLine (keys : List (String × String)) (e : FlowEdge) : String :=
  keyOf keys e.source ++ arrow e.label ++ keyOf keys e.target

def allLines (f : Flowchart) (d : Direction) : List String :=
  let keys := keys f.nodes
  ("flowchart " ++ d.code) :: (f.nodes.map (nodeLine keys) ++ f.edges.map (edgeLine keys))

end Diagram

def Process.diagram (p : Process) (d : Direction) : String :=
  String.ofList (Text.joinWith ['\n'] ((Diagram.allLines p.flowchart d).map String.toList))

end Workflow
