namespace Workflow.Generator

/-- One character inside a literal: the backslash and the delimiter get a backslash in front, line
feeds and carriage returns their letters. -/
def escapeIn (delimiter c : Char) : List Char :=
  if c = '\\' then ['\\', '\\']
  else if c = delimiter then ['\\', delimiter]
  else if c = '\n' then ['\\', 'n']
  else if c = '\r' then ['\\', 'r']
  else [c]

def literal (delimiter : Char) (text : List Char) : List Char :=
  delimiter :: (text.flatMap (escapeIn delimiter) ++ [delimiter])

def quote (text : String) : String :=
  String.ofList (literal '\'' text.toList)

def doubleQuote (text : String) : String :=
  String.ofList (literal '"' text.toList)

/-- Whether a character could end a line or hide in it: control characters and the two Unicode
separators of lines and paragraphs. -/
def isUnprintable (c : Char) : Bool :=
  let n := c.toNat
  n < 32 || (127 ≤ n && n < 160) || n == 0x2028 || n == 0x2029

def codeEscape (c : Char) : List Char :=
  '\\' :: 'u' :: '\x7b' :: (Nat.toDigits 16 c.toNat ++ ['\x7d'])

def escapeInComment (c : Char) : List Char :=
  if c = '\t' then ['\\', 't']
  else if c = '\n' then ['\\', 'n']
  else if c = '\r' then ['\\', 'r']
  else if isUnprintable c then codeEscape c
  else [c]

/-- The text of a comment, without any character that could end it. -/
def singleLine (text : String) : String :=
  String.ofList (text.toList.flatMap escapeInComment)

end Workflow.Generator
