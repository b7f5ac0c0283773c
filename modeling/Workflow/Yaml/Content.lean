import Workflow.Yaml.Compose
import Workflow.Yaml.Plain

namespace Workflow.Yaml

inductive ScalarTag
  | bool
  | int
  | float
  | null
deriving DecidableEq

def standardTag (name : String) : Tag :=
  octetsOf ("tag:yaml.org,2002:" ++ name).toList

def ScalarTag.ofTag? (t : Tag) : Option ScalarTag :=
  if t = standardTag "bool" then some .bool
  else if t = standardTag "int" then some .int
  else if t = standardTag "float" then some .float
  else if t = standardTag "null" then some .null
  else none

/-- The value of a scalar under a tag that gives it a type; `none` if it has no value of this
type. -/
def ScalarTag.read? (t : ScalarTag) (s : List Char) : Option Tree :=
  match t with
  | .bool => (readBool? s).map .bool
  | .int => (readIntTree? s).join
  | .float => (readFloat? s).map fun x => .number (.float x)
  | .null => if isNullWord s then some .null else none

/-- The name of a tag that a document defines itself, without its mark `!`; a mark alone is a name.
Octets that are no text make no name. -/
def localName? (t : Tag) : Option String :=
  match t with
  | 33 :: r => Octets.text? (if r.isEmpty then [33] else r)
  | _ => none

/-- A name as it is kept in a tree: a further mark is left out. -/
def shortName (name : String) : String :=
  match name.toList with
  | '!' :: c :: r => String.ofList (c :: r)
  | _ => name

def isLocal (t : Tag) : Bool :=
  t.head? == some 33

def scalarTree? (tag : Option Tag) (plain : Bool) (s : List Char) : Option Tree :=
  match tag with
  | none => if plain then plainTree? s else some (.string (String.ofList s))
  | some t =>
    match ScalarTag.ofTag? t with
    | some type => type.read? s
    | none => if isLocal t && plain then plainTree? s else some (.string (String.ofList s))

structure Anchors where
  nodes : List (Nat × Node)
  limit : Nat

/-- The anchors of a document. If one number is given twice the later node counts; aliases may be
followed a hundred times for each event of the document. -/
def Anchors.of (root : Node) : Anchors :=
  ⟨root.anchors.reverse, 100 * root.eventCount⟩

def Anchors.target? (a : Anchors) : Node → Option Node
  | .aliasOf n => a.nodes.lookup n
  | x => some x

abbrev Reading := StateT Nat Option

/-- Follows an alias. An anchor never stands before an alias, so one step is enough. -/
def Anchors.follow (a : Anchors) : Node → Reading Node
  | .aliasOf n => fun count =>
    if count + 1 > a.limit then none else (a.target? (.aliasOf n)).map (·, count + 1)
  | x => pure x

def Node.tag? : Node → Option Tag
  | .aliasOf _ => none
  | .scalar p .. => p.tag
  | .sequence p _ => p.tag
  | .mapping p _ => p.tag

/-- The value of a node without its name. `inner` gives the values of the nodes in a collection;
there is none where no collection may stand any more. -/
def Node.contentTree (inner : Option (Node → Reading Tree)) (named : Bool) : Node → Reading Tree
  | .aliasOf _ => failure
  | .scalar p plain text => fun count =>
    (scalarTree? (if named then none else p.tag) plain text).map (·, count)
  | .sequence _ items =>
    match inner with
    | none => failure
    | some inner => do
      let items ← items.mapM inner
      pure (.sequence items)
  | .mapping _ entries =>
    match inner with
    | none => failure
    | some inner => do
      let entries ← entries.foldlM (fun (entries : List (Tree × Tree)) (k, v) => do
        let key ← inner k
        if Tree.hasKey entries key then failure
        else
          let value ← inner v
          pure (entries ++ [(key, value)])) []
      pure (.mapping entries)

/-- The value of a node. A tag with a name makes a tagged value, to whose content the tag says
nothing more. -/
def Node.namedTree (a : Anchors) (inner : Option (Node → Reading Tree)) (x : Node) :
    Reading Tree := do
  let x ← a.follow x
  match x.tag?.bind localName? with
  | some name => do
    let content ← x.contentTree inner true
    pure (.tagged (shortName name) content)
  | none => x.contentTree inner false

def Node.toTree (a : Anchors) : (depth : Nat) → Node → Reading Tree
  | 0, x => x.namedTree a none
  | depth + 1, x => x.namedTree a (some (Node.toTree a depth))

def depthLimit : Nat := 128

def Document.toTree? (d : Document) : Option Tree :=
  match d.root with
  | none => some .null
  | some root => ((root.toTree (Anchors.of root) depthLimit).run 0).map (·.1)

def readTree? (text : List Char) : Option Tree :=
  (Document.read? text).bind Document.toTree?

end Workflow.Yaml
