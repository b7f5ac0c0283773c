import Workflow.Outline.Fault
import Workflow.Text.Blank
import Workflow.Text.Lines

namespace Workflow.Outline

structure Line where
  /-- Its number in the text, counted from one. -/
  number : Nat
  /-- The spaces in front of it. -/
  indent : Nat
  text : List Char
deriving DecidableEq, Repr

def isQuote (c : Char) : Bool :=
  c == '"' || c == '\''

/-- Whether a quote opens a quoted text here: at the start of a line or after a space, a colon or a
hyphen. -/
def opensQuote (previous : Option Char) : Bool :=
  match previous with
  | none => true
  | some c => c == ' ' || c == ':' || c == '-'

/-- Whether a comment can begin here: at the start of a line or after a space. -/
def opensComment (previous : Option Char) : Bool :=
  match previous with
  | none => true
  | some c => c == ' '

/-- The text up to its comment. `quote` is the quote that is open, `previous` the character just
before. -/
def cutComment (quote previous : Option Char) : List Char → List Char
  | [] => []
  | c :: r =>
    match quote with
    | some q => c :: cutComment (if c == q then none else some q) (some c) r
    | none =>
      if isQuote c then c :: cutComment (if opensQuote previous then some c else none) (some c) r
      else if c == '#' && opensComment previous then []
      else c :: cutComment none (some c) r

def stripComment (line : List Char) : List Char :=
  cutComment none none line

def marker : List Char := ['-', '-', '-']

def isVoid (body : List Char) : Bool :=
  body.isEmpty || body == marker

def bodies (text : List Char) : List (List Char) :=
  (Text.lines text).map fun line => Text.trim (stripComment line)

/-- Whether the first line with a body is the head of a block mapping: its body ends with a
colon. -/
def hasMappingHead (text : List Char) : Bool :=
  match (bodies text).find? fun body => !isVoid body with
  | some body => body.getLast? == some ':'
  | none => false

def content (line : List Char) : List Char :=
  Text.trimEnd (stripComment line)

def dropSpaces (s : List Char) : List Char :=
  s.dropWhile (· == ' ')

/-- The significant part of a line, if it has one. A tab in front of it is a fault. -/
def readLine (number : Nat) (line : List Char) : Except Fault (Option Line) :=
  let content := content line
  let body := dropSpaces content
  if isVoid body then .ok none
  else if body.head? == some '\t' then .error ⟨number, .tabIndentation⟩
  else .ok (some ⟨number, content.length - body.length, body⟩)

def readLines (number : Nat) : List (List Char) → Except Fault (List Line)
  | [] => .ok []
  | line :: rest =>
    match readLine number line with
    | .error fault => .error fault
    | .ok first =>
      match readLines (number + 1) rest with
      | .error fault => .error fault
      | .ok others => .ok (first.toList ++ others)

def significantLines (text : List Char) : Except Fault (List Line) :=
  readLines 1 (Text.lines text)

end Workflow.Outline
