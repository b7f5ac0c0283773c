import Workflow.Outline.Line
import Workflow.Yaml.Content

namespace Workflow.Outline

/-- Whether a line is an item of a sequence: a hyphen alone or with a space after it. -/
def isItem : List Char → Bool
  | ['-'] => true
  | '-' :: ' ' :: _ => true
  | _ => false

def cutAtColon : List Char → Option (List Char × List Char)
  | [] => none
  | c :: r =>
    if c == ':' && (r.isEmpty || r.head? == some ' ') then some ([], r)
    else
      match cutAtColon r with
      | some (key, rest) => some (c :: key, rest)
      | none => none

def cutAfterQuote (quote : Char) : List Char → Option (List Char × List Char)
  | [] => none
  | c :: r =>
    match if c == quote then cutAtColon r else cutAfterQuote quote r with
    | some (key, rest) => some (c :: key, rest)
    | none => none

/-- Cuts a line into its key and what follows the colon. A colon inside quotes at the very start
does not count. -/
def cutKey : List Char → Option (List Char × List Char)
  | [] => none
  | c :: r =>
    if isQuote c then
      match cutAfterQuote c r with
      | some (key, rest) => some (c :: key, rest)
      | none => none
    else cutAtColon (c :: r)

/-- Whether a text begins like a flow collection, an anchor, an alias, a tag, a block scalar or a
directive. -/
def beginsUnsupported : List Char → Bool
  | c :: _ => "[\x7b&*!|>%".toList.contains c
  | [] => false

/-- The value of a scalar. The two empty collections count as scalars, and the marks of documents
are plain texts. -/
def scalar (text : List Char) : Except Problem Tree :=
  if text = ['[', ']'] then .ok (.sequence [])
  else if text = ['\x7b', '\x7d'] then .ok (.mapping [])
  else if text = marker || text = ['.', '.', '.'] then .ok (.string (String.ofList text))
  else if beginsUnsupported text then .error (.unsupported (String.ofList text))
  else
    match Yaml.readTree? text with
    | none => .error (.unreadable (String.ofList text))
    | some (.sequence _) => .error (.notScalar (String.ofList text))
    | some (.mapping _) => .error (.notScalar (String.ofList text))
    | some (.tagged ..) => .error (.notScalar (String.ofList text))
    | some value => .ok value

def keyText (key : Tree) : String :=
  key.scalarText?.getD "null"

structure Entry where
  key : Tree
  /-- What follows the colon, without white space at its ends. -/
  rest : List Char

def readEntry (text : List Char) : Except Problem Entry :=
  match cutKey text with
  | none => .error .missingColon
  | some (key, rest) =>
    let key := Text.trim key
    if key.isEmpty then .error .emptyKey
    else
      match scalar key with
      | .ok key => .ok ⟨key, Text.trim rest⟩
      | .error problem => .error problem

end Workflow.Outline
