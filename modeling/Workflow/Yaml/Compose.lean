import Workflow.Yaml.Node
import Workflow.Yaml.Scan

namespace Workflow.Yaml

structure TagHandle where
  handle : List Char
  stem : Octets

/-- The handles that every document has unless its directives redefine them. -/
def standardHandles : List TagHandle :=
  [⟨['!'], octetsOf ['!']⟩, ⟨['!', '!'], octetsOf "tag:yaml.org,2002:".toList⟩]

structure Compose where
  tokens : List Token
  handles : List TagHandle
  /-- The number of the latest anchor of each name. -/
  names : List (List Char × Nat) := []

namespace Compose

def skip (s : Compose) : Compose :=
  { s with tokens := s.tokens.drop 1 }

def peek (s : Compose) : Option Token :=
  s.tokens.head?

def nextIsIn (s : Compose) (ts : List Token) : Bool :=
  match s.peek with
  | some t => ts.contains t
  | none => false

def nextIs (s : Compose) (t : Token) : Bool :=
  s.nextIsIn [t]

/-- Numbers an anchor by how many names there are before it; a name that comes again is bound to
this number from now on. -/
def bind (s : Compose) (name : List Char) : Nat × Compose :=
  let number := s.names.length
  (number, { s with names := (name, number) :: s.names.filter (·.1 ≠ name) })

/-- The octets of a tag in full; `none` if its handle is not defined. -/
def resolveTag (s : Compose) (t : TagToken) : Option Tag :=
  if t.handle.isEmpty then some t.suffix
  else (s.handles.find? (·.handle = t.handle)).map fun h => h.stem ++ t.suffix

def takeAnchor (s : Compose) : Option (List Char) × Compose :=
  match s.peek with
  | some (.anchor name) => (some name, s.skip)
  | _ => (none, s)

def takeTag (s : Compose) : Option TagToken × Compose :=
  match s.peek with
  | some (.tag t) => (some t, s.skip)
  | _ => (none, s)

def takeProperties (s : Compose) : Option (Properties × Compose) :=
  let (name, s) := s.takeAnchor
  let (tag, s) := s.takeTag
  let (name, s) := if name.isNone then s.takeAnchor else (name, s)
  let (anchor, s) :=
    match name with
    | some name => let (n, s) := s.bind name; (some n, s)
    | none => (none, s)
  match tag with
  | none => some (⟨anchor, none⟩, s)
  | some t => (s.resolveTag t).map fun tag => (⟨anchor, some tag⟩, s)

/-- Where a node may stand: whether it can be a block collection, and whether a sequence can stand
at the column of the mapping around it. -/
structure Place where
  block : Bool
  indentless : Bool

mutual

/-- Reads a node. A node of which nothing but an anchor or a tag is written is an empty scalar. -/
def node : (fuel : Nat) → Place → Compose → Option (Node × Compose)
  | 0, _, _ => none
  | fuel + 1, place, s =>
    match s.peek with
    | some (.aliasOf name) => (s.names.lookup name).map fun n => (.aliasOf n, s.skip)
    | _ =>
      match s.takeProperties with
      | none => none
      | some (p, s) =>
        match s.peek with
        | some (.scalar plain text) => some (.scalar p plain text, s.skip)
        | some .flowSequenceStart =>
          (flowItems fuel true [] s.skip).map fun (items, s) => (.sequence p items, s)
        | some .flowMappingStart =>
          (flowEntries fuel true [] s.skip).map fun (entries, s) => (.mapping p entries, s)
        | some .blockEntry =>
          if place.indentless then
            (indentlessItems fuel [] s).map fun (items, s) => (.sequence p items, s)
          else bare p s
        | some .blockSequenceStart =>
          if place.block then
            (blockItems fuel [] s.skip).map fun (items, s) => (.sequence p items, s)
          else bare p s
        | some .blockMappingStart =>
          if place.block then
            (blockEntries fuel [] s.skip).map fun (entries, s) => (.mapping p entries, s)
          else bare p s
        | _ => bare p s

def bare (p : Properties) (s : Compose) : Option (Node × Compose) :=
  if p.anchor.isSome || p.tag.isSome then some (.scalar p true [], s) else none

/-- Reads a node, or the empty node before one of the tokens `ends`. -/
def nodeUnless : (fuel : Nat) → Place → (ends : List Token) → Compose → Option (Node × Compose)
  | 0, _, _, _ => none
  | fuel + 1, place, ends, s => if s.nextIsIn ends then some (.empty, s) else node fuel place s

def valueUnless : (fuel : Nat) → Place → (ends : List Token) → Compose → Option (Node × Compose)
  | 0, _, _, _ => none
  | fuel + 1, place, ends, s =>
    if s.nextIs .value then nodeUnless fuel place ends s.skip else some (.empty, s)

def blockItems : (fuel : Nat) → (read : List Node) → Compose → Option (List Node × Compose)
  | 0, _, _ => none
  | fuel + 1, read, s =>
    if s.nextIs .blockEntry then
      match nodeUnless fuel ⟨true, false⟩ [.blockEntry, .blockEnd] s.skip with
      | some (x, s) => blockItems fuel (x :: read) s
      | none => none
    else if s.nextIs .blockEnd then some (read.reverse, s.skip)
    else none

def indentlessItems : (fuel : Nat) → (read : List Node) → Compose → Option (List Node × Compose)
  | 0, _, _ => none
  | fuel + 1, read, s =>
    if s.nextIs .blockEntry then
      match nodeUnless fuel ⟨true, false⟩ [.blockEntry, .key, .value, .blockEnd] s.skip with
      | some (x, s) => indentlessItems fuel (x :: read) s
      | none => none
    else some (read.reverse, s)

def blockEntries : (fuel : Nat) → (read : List (Node × Node)) → Compose →
    Option (List (Node × Node) × Compose)
  | 0, _, _ => none
  | fuel + 1, read, s =>
    if s.nextIs .key then
      match nodeUnless fuel ⟨true, true⟩ [.key, .value, .blockEnd] s.skip with
      | none => none
      | some (k, s) =>
        match valueUnless fuel ⟨true, true⟩ [.key, .value, .blockEnd] s with
        | some (v, s) => blockEntries fuel ((k, v) :: read) s
        | none => none
    else if s.nextIs .blockEnd then some (read.reverse, s.skip)
    else none

/-- Reads the items of a flow sequence and its bracket. A key makes a mapping of one entry. -/
def flowItems : (fuel : Nat) → (first : Bool) → (read : List Node) → Compose →
    Option (List Node × Compose)
  | 0, _, _, _ => none
  | fuel + 1, first, read, s =>
    if s.nextIs .flowSequenceEnd then some (read.reverse, s.skip)
    else if !first && !s.nextIs .flowEntry then none
    else
      let s := if first then s else s.skip
      if s.nextIs .flowSequenceEnd then some (read.reverse, s.skip)
      else if s.nextIs .key then
        match flowPair fuel s.skip with
        | some (x, s) => flowItems fuel false (x :: read) s
        | none => none
      else
        match node fuel ⟨false, false⟩ s with
        | some (x, s) => flowItems fuel false (x :: read) s
        | none => none

/-- Reads a mapping of one entry inside a flow sequence. Where the key is missing, the token in its
place is passed over. -/
def flowPair : (fuel : Nat) → Compose → Option (Node × Compose)
  | 0, _ => none
  | fuel + 1, s =>
    let key :=
      if s.nextIsIn [.value, .flowEntry, .flowSequenceEnd] then some (.empty, s.skip)
      else node fuel ⟨false, false⟩ s
    match key with
    | none => none
    | some (k, s) =>
      (valueUnless fuel ⟨false, false⟩ [.flowEntry, .flowSequenceEnd] s).map fun (v, s) =>
        (.mapping {} [(k, v)], s)

def flowEntries : (fuel : Nat) → (first : Bool) → (read : List (Node × Node)) → Compose →
    Option (List (Node × Node) × Compose)
  | 0, _, _, _ => none
  | fuel + 1, first, read, s =>
    if s.nextIs .flowMappingEnd then some (read.reverse, s.skip)
    else if !first && !s.nextIs .flowEntry then none
    else
      let s := if first then s else s.skip
      if s.nextIs .flowMappingEnd then some (read.reverse, s.skip)
      else if s.nextIs .key then
        match nodeUnless fuel ⟨false, false⟩ [.value, .flowEntry, .flowMappingEnd] s.skip with
        | none => none
        | some (k, s) =>
          match valueUnless fuel ⟨false, false⟩ [.flowEntry, .flowMappingEnd] s with
          | some (v, s) => flowEntries fuel false ((k, v) :: read) s
          | none => none
      else
        match node fuel ⟨false, false⟩ s with
        | some (k, s) => flowEntries fuel false ((k, .empty) :: read) s
        | none => none

end

/-- Reads the directives before a document. Each may come once, and the version is 1.1 or 1.2. -/
def directives : (version : Bool) → (handles : List TagHandle) → List Token →
    Option (List TagHandle × List Token)
  | version, handles, .versionDirective major minor :: r =>
    if version || major ≠ 1 || (minor ≠ 1 && minor ≠ 2) then none else directives true handles r
  | version, handles, .tagDirective handle stem :: r =>
    if handles.any (·.handle = handle) then none
    else directives version (handles ++ [⟨handle, stem⟩]) r
  | _, handles, r => some (handles, r)

def endsDocument : Option Token → Bool
  | some (.versionDirective ..) => true
  | some (.tagDirective ..) => true
  | some .documentStart => true
  | some .documentEnd => true
  | none => true
  | _ => false

def isExplicit : Option Token → Bool
  | some (.versionDirective ..) => true
  | some (.tagDirective ..) => true
  | some .documentStart => true
  | _ => false

def content (s : Compose) : Option (Node × Compose) :=
  node (4 * s.tokens.length + 4) ⟨true, false⟩ s

def document (tokens : List Token) : Option (Node × Compose) :=
  if isExplicit tokens.head? then
    match directives false [] tokens with
    | some (handles, .documentStart :: r) =>
      let s : Compose := { tokens := r, handles := handles ++ standardHandles }
      if endsDocument s.peek then some (.empty, s) else s.content
    | _ => none
  else content { tokens, handles := standardHandles }

def document? (tokens : List Token) : Option Document :=
  if tokens.isEmpty then some ⟨none⟩
  else
    match document tokens with
    | some (root, s) =>
      if (s.tokens.dropWhile (· == .documentEnd)).isEmpty then some ⟨some root⟩ else none
    | none => none

end Compose

/-- Reads the document of a text; `none` if the text is no YAML or holds more than one document. -/
def Document.read? (text : List Char) : Option Document :=
  (tokens? text).bind Compose.document?

end Workflow.Yaml
