import Workflow.Number.Decimal
import Workflow.Octets
import Workflow.Yaml.Cursor

namespace Workflow.Yaml

def octetsOf (s : List Char) : Octets :=
  s.map fun c => UInt8.ofNat c.toNat

/-- A tag as it is written: a handle, empty for a tag in angle brackets, and the octets after it. -/
structure TagToken where
  handle : List Char
  suffix : Octets
deriving DecidableEq

/-- Whether a character can stand in a tag. Flow indicators can do so only where `wide` holds: in
angle brackets and in directives. -/
def isTagChar (wide : Bool) (c : Char) : Bool :=
  isWordChar c || ";/?:@&=+$.!~*'()".toList.contains c ||
    (wide && (c == ',' || c == '[' || c == ']'))

def readOctet? : List Char → Option (Nat × List Char)
  | '%' :: a :: b :: r => (Number.readNat? 16 [a, b]).map (·, r)
  | _ => none

def continuations? (octet : Nat) : Option Nat :=
  if octet < 0x80 then some 0
  else if 0xC0 ≤ octet ∧ octet < 0xE0 then some 1
  else if 0xE0 ≤ octet ∧ octet < 0xF0 then some 2
  else if 0xF0 ≤ octet ∧ octet < 0xF8 then some 3
  else none

def readContinuations : (n : Nat) → List Char → Option (Octets × List Char)
  | 0, s => some ([], s)
  | n + 1, s =>
    match readOctet? s with
    | none => none
    | some (octet, r) =>
      if 0x80 ≤ octet ∧ octet < 0xC0 then
        (readContinuations n r).map fun (octets, r) => (UInt8.ofNat octet :: octets, r)
      else none

def readEscaped (s : List Char) : Option (Octets × List Char) :=
  match readOctet? s with
  | none => none
  | some (octet, r) =>
    match continuations? octet with
    | none => none
    | some n => (readContinuations n r).map fun (octets, r) => (UInt8.ofNat octet :: octets, r)

def readTagChars (wide : Bool) : (fuel : Nat) → List Char → Option (Octets × List Char)
  | 0, _ => none
  | _, [] => some ([], [])
  | fuel + 1, c :: r =>
    if c == '%' then
      match readEscaped (c :: r) with
      | none => none
      | some (octets, r) => (readTagChars wide fuel r).map fun (more, r) => (octets ++ more, r)
    else if isTagChar wide c then
      (readTagChars wide fuel r).map fun (more, r) => (UInt8.ofNat c.toNat :: more, r)
    else some ([], c :: r)

/-- Reads a run of tag characters that must not be empty. A zero octet ends what is kept of it. -/
def readSuffix (wide : Bool) (s : List Char) : Option (Octets × List Char) :=
  match readTagChars wide (s.length + 1) s with
  | some (octets, r) => if octets.isEmpty then none else some (octets.takeWhile (· ≠ 0), r)
  | none => none

/-- Reads a handle: `!`, a word, and another `!` if there is one. -/
def readHandle : List Char → Option (List Char × List Char)
  | '!' :: r =>
    let word := r.takeWhile isWordChar
    match r.dropWhile isWordChar with
    | '!' :: rest => some ('!' :: (word ++ ['!']), rest)
    | rest => some ('!' :: word, rest)
  | _ => none

def isClosedHandle (handle : List Char) : Bool :=
  handle.length > 1 && handle.getLast? == some '!'

/-- Reads a tag without angle brackets. A word behind a single `!` belongs to the suffix; a bare `!`
has no handle and is its own suffix. -/
def readShorthand (s : List Char) : Option (TagToken × List Char) :=
  match readHandle s with
  | none => none
  | some (handle, r) =>
    if isClosedHandle handle then (readSuffix false r).map fun (suffix, r) => (⟨handle, suffix⟩, r)
    else
      match readTagChars false (r.length + 1) r with
      | none => none
      | some (octets, r) =>
        let suffix := (octetsOf (handle.drop 1) ++ octets).takeWhile (· ≠ 0)
        some (if suffix.isEmpty then ⟨[], octetsOf ['!']⟩ else ⟨['!'], suffix⟩, r)

/-- Reads a tag. It is followed by a gap or, in a flow collection, a comma. -/
def readTag (inFlow : Bool) (s : List Char) : Option (TagToken × List Char) :=
  let read :=
    match s with
    | '!' :: '<' :: r =>
      match readSuffix true r with
      | some (suffix, '>' :: r) => some (⟨[], suffix⟩, r)
      | _ => none
    | _ => readShorthand s
  match read with
  | some (tag, r) => if (inFlow && startsWith (· == ',') r) || atGap r then some (tag, r) else none
  | none => none

end Workflow.Yaml
