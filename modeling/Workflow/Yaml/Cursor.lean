namespace Workflow.Yaml

/-- Makes the line breaks of a text alike: a carriage return and a line feed, a carriage return
alone and a next-line character all become line feeds. -/
def unifyBreaks : List Char → List Char
  | [] => []
  | '\r' :: '\n' :: r => '\n' :: unifyBreaks r
  | c :: r => (if c = '\r' || c = '\u0085' then '\n' else c) :: unifyBreaks r

def byteOrderMark : Char := '\ufeff'

def isAllowed (c : Char) : Bool :=
  let n := c.toNat
  n == 9 || n == 10 || n == 13 || (0x20 ≤ n && n ≤ 0x7E) || n == 0x85 ||
    (0xA0 ≤ n && n ≤ 0xD7FF) || (0xE000 ≤ n && n ≤ 0xFFFD) || 0x10000 ≤ n

def isBreak (c : Char) : Bool :=
  c == '\n' || c == '\u2028' || c == '\u2029'

def isBlank (c : Char) : Bool :=
  c == ' ' || c == '\t'

def isGap (c : Char) : Bool :=
  isBlank c || isBreak c

def isWordChar (c : Char) : Bool :=
  c.isAlphanum || c == '-' || c == '_'

/-- Whether a text ends here or goes on with a blank or a break. -/
def atGap : List Char → Bool
  | [] => true
  | c :: _ => isGap c

def atLineEnd : List Char → Bool
  | [] => true
  | c :: _ => isBreak c

def startsWith (p : Char → Bool) : List Char → Bool
  | [] => false
  | c :: _ => p c

def octetCount (s : List Char) : Nat :=
  s.foldl (fun n c => n + c.utf8Size) 0

structure Cursor where
  rest : List Char
  line : Nat := 0
  /-- The number of characters of the line that lie before. -/
  column : Nat := 0
  /-- The number of their octets. -/
  offset : Nat := 0

namespace Cursor

def skip (c : Cursor) (n : Nat := 1) : Cursor :=
  { c with
    rest := c.rest.drop n
    column := c.column + n
    offset := c.offset + octetCount (c.rest.take n) }

def nextLine (c : Cursor) : Cursor :=
  { rest := c.rest.drop 1, line := c.line + 1 }

def word (c : Cursor) (p : Char → Bool) : List Char :=
  c.rest.takeWhile p

def skipWhile (c : Cursor) (p : Char → Bool) : Cursor :=
  c.skip (c.word p).length

def sees (c : Cursor) (x : Char) : Bool :=
  startsWith (· == x) c.rest

/-- Whether a line that marks the start (`---`) or the end (`...`) of a document begins here. -/
def atMarker (c : Cursor) : Bool :=
  c.column == 0 &&
    match c.rest with
    | '-' :: '-' :: '-' :: r => atGap r
    | '.' :: '.' :: '.' :: r => atGap r
    | _ => false

end Cursor

end Workflow.Yaml
