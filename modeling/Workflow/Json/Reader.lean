import Workflow.Json
import Workflow.Json.Numeral
/-!
Reading JSON texts. A text is one value with white space around it; containers nest at most 127
deep, and of two fields with one name the later one counts.
-/

namespace Workflow.Json

def skipSpace (s : List Char) : List Char :=
  s.dropWhile fun c => c == ' ' || c == '\n' || c == '\t' || c == '\r'

def readHex4 : List Char → Option (Nat × List Char)
  | a :: b :: c :: d :: r => (Number.readNat? 16 [a, b, c, d]).map (·, r)
  | _ => none

/-- The character after `\u`; a code above the basic plane takes a pair of escapes. -/
def readUnicodeEscape (s : List Char) : Option (Char × List Char) := do
  let (high, r) ← readHex4 s
  if 0xDC00 ≤ high ∧ high ≤ 0xDFFF then none
  else if 0xD800 ≤ high ∧ high ≤ 0xDBFF then
    match r with
    | '\\' :: 'u' :: r =>
      let (low, r) ← readHex4 r
      if 0xDC00 ≤ low ∧ low ≤ 0xDFFF then
        some (Char.ofNat (0x10000 + (high - 0xD800) * 0x400 + (low - 0xDC00)), r)
      else none
    | _ => none
  else some (Char.ofNat high, r)

def simpleEscape? (c : Char) : Option Char :=
  match c with
  | '"' => some '"'
  | '\\' => some '\\'
  | '/' => some '/'
  | 'b' => some (Char.ofNat 8)
  | 'f' => some (Char.ofNat 12)
  | 'n' => some '\n'
  | 'r' => some '\r'
  | 't' => some '\t'
  | _ => none

/-- The characters of a text up to its closing quote; `read` holds those before, last one first. -/
def readQuoted : (fuel : Nat) → (read : List Char) → List Char → Option (String × List Char)
  | 0, _, _ => none
  | _, _, [] => none
  | fuel + 1, read, c :: r =>
    if c = '"' then some (String.ofList read.reverse, r)
    else if c = '\\' then
      match r with
      | 'u' :: r =>
        match readUnicodeEscape r with
        | some (d, r) => readQuoted fuel (d :: read) r
        | none => none
      | e :: r =>
        match simpleEscape? e with
        | some d => readQuoted fuel (d :: read) r
        | none => none
      | [] => none
    else if c.toNat < 32 then none
    else readQuoted fuel (c :: read) r

def readString (s : List Char) : Option (String × List Char) :=
  readQuoted (s.length + 1) [] s

/-- Sets a field; one of the same name loses its place to the new one. -/
def setField (fields : List (String × Json)) (name : String) (value : Json) :
    List (String × Json) :=
  fields.filter (·.1 ≠ name) ++ [(name, value)]

mutual

/-- Reads a value at the start of a text; `depth` containers may still be opened. -/
def readValue : (fuel depth : Nat) → List Char → Option (Json × List Char)
  | 0, _, _ => none
  | fuel + 1, depth, s =>
    match skipSpace s with
    | 'n' :: 'u' :: 'l' :: 'l' :: r => some (null, r)
    | 't' :: 'r' :: 'u' :: 'e' :: r => some (bool true, r)
    | 'f' :: 'a' :: 'l' :: 's' :: 'e' :: r => some (bool false, r)
    | '"' :: r => (readString r).map fun (text, r) => (string text, r)
    | '[' :: r =>
      if depth = 0 then none
      else
        match skipSpace r with
        | ']' :: r => some (array [], r)
        | r => readItems fuel (depth - 1) [] r
    | '\x7b' :: r =>
      if depth = 0 then none
      else
        match skipSpace r with
        | '\x7d' :: r => some (object [], r)
        | r => readFields fuel (depth - 1) [] r
    | r => (readNumeral r).map fun (n, r) => (number n, r)

def readItems : (fuel depth : Nat) → (read : List Json) → List Char → Option (Json × List Char)
  | 0, _, _, _ => none
  | fuel + 1, depth, read, s =>
    match readValue fuel depth s with
    | none => none
    | some (item, r) =>
      match skipSpace r with
      | ',' :: r => readItems fuel depth (item :: read) r
      | ']' :: r => some (array (item :: read).reverse, r)
      | _ => none

def readFields : (fuel depth : Nat) → (read : List (String × Json)) → List Char →
    Option (Json × List Char)
  | 0, _, _, _ => none
  | fuel + 1, depth, read, s =>
    match skipSpace s with
    | '"' :: r =>
      match readString r with
      | none => none
      | some (name, r) =>
        match skipSpace r with
        | ':' :: r =>
          match readValue fuel depth r with
          | none => none
          | some (value, r) =>
            match skipSpace r with
            | ',' :: r => readFields fuel depth (setField read name value) r
            | '\x7d' :: r => some (object (setField read name value), r)
            | _ => none
        | _ => none
    | _ => none

end

def read? (text : String) : Option Json :=
  let s := text.toList
  match readValue (2 * s.length + 2) 127 s with
  | some (j, r) => if (skipSpace r).isEmpty then some j else none
  | none => none

end Workflow.Json
