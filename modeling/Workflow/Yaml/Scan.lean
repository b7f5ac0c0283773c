import Workflow.Yaml.Scalar
import Workflow.Yaml.Token
/-!
From text to tokens. What makes a mapping of a line is the colon after its key, so the token before
a key is entered once the colon is met: a place that may turn out to be a key is remembered, for the
length of its line and 1024 octets.
-/

namespace Workflow.Yaml

/-- A place where a key may have begun. -/
structure KeyPlace where
  /-- The number of tokens before it. -/
  index : Nat
  line : Nat
  column : Nat
  /-- The number of octets of the line before it. -/
  offset : Nat
  /-- Whether nothing but a key can stand there. -/
  required : Bool

structure Scan where
  cursor : Cursor
  /-- The tokens read, the last one first. -/
  tokens : List Token
  /-- One more than the column of the innermost block, zero outside all blocks. -/
  level : Nat
  /-- The levels of the blocks around it. -/
  outerLevels : List Nat
  /-- The possible key of the innermost flow collection, or of the block. -/
  place : Option KeyPlace
  /-- The possible keys around it; one for each open flow collection. -/
  outerPlaces : List (Option KeyPlace)
  /-- Whether a key may begin at the next token. -/
  keyAllowed : Bool

namespace Scan

def start (text : List Char) : Scan :=
  { cursor := { rest := text }, tokens := [], level := 0, outerLevels := [], place := none
    outerPlaces := [], keyAllowed := true }

def inFlow (s : Scan) : Bool :=
  !s.outerPlaces.isEmpty

def emit (s : Scan) (t : Token) : Scan :=
  { s with tokens := t :: s.tokens }

/-- Inserts a token with `index` tokens before it. -/
def emitAt (s : Scan) (index : Nat) (t : Token) : Scan :=
  let later := s.tokens.length - index
  { s with tokens := s.tokens.take later ++ t :: s.tokens.drop later }

/-- Skips blanks, comments and line breaks, and a byte order mark in the first column. Tabs count
as blanks except where a key may begin; after a break outside flow collections one may. `comment`
says whether a comment is open. -/
def skipToToken (inFlow : Bool) : (comment keyAllowed : Bool) → (line column offset : Nat) →
    List Char → Bool × Cursor
  | _, keyAllowed, line, column, offset, [] => (keyAllowed, ⟨[], line, column, offset⟩)
  | comment, keyAllowed, line, column, offset, x :: r =>
    if isBreak x then skipToToken inFlow false (keyAllowed || !inFlow) (line + 1) 0 0 r
    else if comment || x == '#' then
      skipToToken inFlow true keyAllowed line (column + 1) (offset + x.utf8Size) r
    else if x == ' ' || ((inFlow || !keyAllowed) && x == '\t') ||
      (column == 0 && x == byteOrderMark) then
      skipToToken inFlow false keyAllowed line (column + 1) (offset + x.utf8Size) r
    else (keyAllowed, ⟨x :: r, line, column, offset⟩)

def toToken (s : Scan) : Scan :=
  let c := s.cursor
  let (keyAllowed, cursor) := skipToToken s.inFlow false s.keyAllowed c.line c.column
    c.offset c.rest
  { s with keyAllowed, cursor }

/-- Whether a possible key is out of reach: on an earlier line, or too far back. -/
def isStale (c : Cursor) (p : KeyPlace) : Bool :=
  p.line < c.line || p.offset + 1024 < c.offset

/-- Gives up a possible key that is out of reach; `none` if a key was required. -/
def expire (c : Cursor) : Option KeyPlace → Option (Option KeyPlace)
  | none => some none
  | some p => if isStale c p then if p.required then none else some none else some (some p)

def expireAll (s : Scan) : Option Scan := do
  let place ← expire s.cursor s.place
  let outerPlaces ← s.outerPlaces.mapM (expire s.cursor)
  some { s with place, outerPlaces }

def dropPlace (s : Scan) : Option Scan :=
  match s.place with
  | some p => if p.required then none else some { s with place := none }
  | none => some s

/-- Remembers that a key may begin here, if one may. -/
def savePlace (s : Scan) : Option Scan :=
  if s.keyAllowed then do
    let s ← s.dropPlace
    let c := s.cursor
    some { s with place := some {
      index := s.tokens.length, line := c.line, column := c.column, offset := c.offset
      required := !s.inFlow && s.level == c.column + 1 } }
  else some s

/-- Opens a block at a column if it lies to the right of the innermost one; its token goes before
the token `index`. -/
def openBlock (s : Scan) (column index : Nat) (t : Token) : Scan :=
  if !s.inFlow && s.level ≤ column then
    { s.emitAt index t with level := column + 1, outerLevels := s.level :: s.outerLevels }
  else s

def openBlockHere (s : Scan) (t : Token) : Scan :=
  s.openBlock s.cursor.column s.tokens.length t

def closeBlocksTo (level : Nat) : (outer : List Nat) → Scan → Scan
  | [], s => s
  | l :: ls, s =>
    if s.level > level then
      closeBlocksTo level ls { s.emit .blockEnd with level := l, outerLevels := ls }
    else s

def closeBlocks (s : Scan) (level : Nat) : Scan :=
  if s.inFlow then s else closeBlocksTo level s.outerLevels s

def moveTo (s : Scan) (c : Cursor) : Scan :=
  { s with cursor := c }

def skip (s : Scan) (n : Nat) : Scan :=
  s.moveTo (s.cursor.skip n)

def allowKey (s : Scan) (allowed : Bool) : Scan :=
  { s with keyAllowed := allowed }

/-- The head that documents and directives share: all blocks are closed and no key is possible. -/
def leaveBlocks (s : Scan) : Option Scan :=
  (s.closeBlocks 0).dropPlace.map (·.allowKey false)

def marker (s : Scan) (t : Token) : Option Scan :=
  s.leaveBlocks.map fun s => (s.emit t).skip 3

def openFlow (s : Scan) (t : Token) : Option Scan :=
  s.savePlace.map fun s =>
    (({ s with
        place := none
        outerPlaces := s.place :: s.outerPlaces }.allowKey true).emit t).skip 1

def closeFlow (s : Scan) (t : Token) : Option Scan :=
  s.dropPlace.map fun s =>
    let s :=
      match s.outerPlaces with
      | place :: outerPlaces => { s with place, outerPlaces }
      | [] => s
    ((s.allowKey false).emit t).skip 1

def flowEntry (s : Scan) : Option Scan :=
  s.dropPlace.map fun s => ((s.allowKey true).emit .flowEntry).skip 1

def blockEntry (s : Scan) : Option Scan :=
  if !s.inFlow && !s.keyAllowed then none
  else
    (s.openBlockHere .blockSequenceStart).dropPlace.map fun s =>
      ((s.allowKey true).emit .blockEntry).skip 1

def explicitKey (s : Scan) : Option Scan :=
  if !s.inFlow && !s.keyAllowed then none
  else
    (s.openBlockHere .blockMappingStart).dropPlace.map fun s =>
      ((s.allowKey !s.inFlow).emit .key).skip 1

/-- Reads the colon before a value. If a key was possible it was one. -/
def colon (s : Scan) : Option Scan :=
  match s.place with
  | some p =>
    let s := (s.emitAt p.index .key).openBlock p.column p.index .blockMappingStart
    some ((({ s with place := none }.allowKey false).emit .value).skip 1)
  | none =>
    if !s.inFlow && !s.keyAllowed then none
    else
      let s := s.openBlockHere .blockMappingStart
      some (((s.allowKey !s.inFlow).emit .value).skip 1)

def endsName (r : List Char) : Bool :=
  atGap r || startsWith (fun c => "?:,]\x7d%@\x60".toList.contains c) r

def named (s : Scan) (token : List Char → Token) : Option Scan := do
  let s ← s.savePlace
  let c := s.cursor.skip 1
  let name := c.word isWordChar
  let c := c.skip name.length
  if name.isEmpty || !endsName c.rest then none
  else some (((s.allowKey false).emit (token name)).moveTo c)

def tagged (s : Scan) : Option Scan := do
  let s ← s.savePlace
  let (tag, rest) ← readTag s.inFlow s.cursor.rest
  some (((s.allowKey false).emit (.tag tag)).skip (s.cursor.rest.length - rest.length))

def block (s : Scan) (folded : Bool) : Option Scan := do
  let s ← s.dropPlace
  let r ← scanBlock folded s.level s.cursor
  some (((s.allowKey true).emit (.scalar false r.text)).moveTo r.next)

def quoted (s : Scan) (single : Bool) : Option Scan := do
  let s ← s.savePlace
  let r ← scanQuoted single s.cursor
  some (((s.allowKey false).emit (.scalar false r.text)).moveTo r.next)

def plain (s : Scan) : Option Scan := do
  let s ← s.savePlace
  let r ← scanPlain s.inFlow s.level s.cursor
  some (((s.allowKey r.endsBroken).emit (.scalar true r.text)).moveTo r.next)

def readVersionPart (s : List Char) : Option (Nat × List Char) :=
  let digits := s.takeWhile Char.isDigit
  if digits.isEmpty || digits.length > 9 then none
  else some (Number.digitsValue digits, s.dropWhile Char.isDigit)

def readDirective (name : List Char) (s : List Char) : Option (Token × List Char) :=
  let s := s.dropWhile isBlank
  if name = "YAML".toList then
    match readVersionPart s with
    | some (major, '.' :: r) => (readVersionPart r).map fun (minor, r) =>
      (.versionDirective major minor, r)
    | _ => none
  else if name = "TAG".toList then
    match readHandle s with
    | some (handle, r) =>
      if (isClosedHandle handle || handle = ['!']) && startsWith isBlank r then
        match readSuffix true (r.dropWhile isBlank) with
        | some (stem, r) => if atGap r then some (.tagDirective handle stem, r) else none
        | none => none
      else none
    | none => none
  else none

/-- Reads a directive and the rest of its line, which holds nothing but a comment. -/
def directive (s : Scan) : Option Scan := do
  let s ← s.leaveBlocks
  let c := s.cursor.skip 1
  let name := c.word isWordChar
  let c := c.skip name.length
  if name.isEmpty || !atGap c.rest then none
  else
    let (token, rest) ← readDirective name c.rest
    let c := (c.skip (c.rest.length - rest.length)).skipWhile isBlank
    let c := if c.sees '#' then c.skipWhile (fun x => !isBreak x) else c
    if !atLineEnd c.rest then none
    else some ((s.emit token).moveTo (if c.rest.isEmpty then c else c.nextLine))

def isIndicator (c : Char) : Bool :=
  isGap c || "-?:,[]\x7b\x7d#&*!|>'\"%@\x60".toList.contains c

/-- Whether a plain scalar begins with these characters: no indicator, or a hyphen, or outside flow
collections a question mark or colon, with more of the word after it. -/
def beginsPlain (inFlow : Bool) (c : Char) (r : List Char) : Bool :=
  !isIndicator c || (c == '-' && !startsWith isBlank r) ||
    (!inFlow && (c == '?' || c == ':') && !atGap r)

def readToken (s : Scan) (x : Char) (r : List Char) : Option Scan :=
  if s.cursor.column == 0 && x == '%' then s.directive
  else if s.cursor.atMarker then s.marker (if x == '-' then .documentStart else .documentEnd)
  else if x == '[' then s.openFlow .flowSequenceStart
  else if x == '\x7b' then s.openFlow .flowMappingStart
  else if x == ']' then s.closeFlow .flowSequenceEnd
  else if x == '\x7d' then s.closeFlow .flowMappingEnd
  else if x == ',' then s.flowEntry
  else if x == '-' && atGap r then s.blockEntry
  else if x == '?' && (s.inFlow || atGap r) then s.explicitKey
  else if x == ':' && (s.inFlow || atGap r) then s.colon
  else if x == '*' then s.named .aliasOf
  else if x == '&' then s.named .anchor
  else if x == '!' then s.tagged
  else if x == '|' && !s.inFlow then s.block false
  else if x == '>' && !s.inFlow then s.block true
  else if x == '\'' then s.quoted true
  else if x == '"' then s.quoted false
  else if beginsPlain s.inFlow x r then s.plain
  else none

def finish (s : Scan) : Option (List Token) :=
  (s.closeBlocks 0).dropPlace.map fun s => s.tokens.reverse

def run : (fuel : Nat) → Scan → Option (List Token)
  | 0, _ => none
  | fuel + 1, s =>
    match s.toToken.expireAll with
    | none => none
    | some s =>
      let s := s.closeBlocks (s.cursor.column + 1)
      match s.cursor.rest with
      | [] => s.finish
      | x :: r =>
        match s.readToken x r with
        | some s => run fuel s
        | none => none

end Scan

/-- The tokens of a text; `none` if it holds a character that is not allowed or breaks a rule of the
notation. -/
def tokens? (text : List Char) : Option (List Token) :=
  if text.all isAllowed then
    let text := unifyBreaks text
    (Scan.start text).run (text.length + 2)
  else none

end Workflow.Yaml
