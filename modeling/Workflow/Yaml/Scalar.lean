import Workflow.Number.Decimal
import Workflow.Yaml.Folding

namespace Workflow.Yaml

def isFlowIndicator (c : Char) : Bool :=
  c == ',' || c == '[' || c == ']' || c == '\x7b' || c == '\x7d'

/-- A word of a plain scalar and what follows it. It ends before a gap, before a colon with a gap
after it and, in a flow collection, before an indicator; there a colon just before an indicator or
a question mark is an error. -/
def plainWord (inFlow : Bool) : List Char → Option (List Char × List Char)
  | [] => some ([], [])
  | c :: r =>
    if isGap c then some ([], c :: r)
    else if inFlow && c == ':' && startsWith (fun d => isFlowIndicator d || d == '?') r then none
    else if (c == ':' && atGap r) || (inFlow && isFlowIndicator c) then some ([], c :: r)
    else
      match plainWord inFlow r with
      | some (word, rest) => some (c :: word, rest)
      | none => none

/-- A scalar's text, whether it ended after a line break, and where. -/
structure ScalarScan where
  text : List Char
  endsBroken : Bool
  next : Cursor

/-- The words of a plain scalar. It goes on over gaps until a comment, a document marker or, outside
flow collections, a line that begins to the left of column `indent`. -/
def plainWords (inFlow : Bool) (indent : Nat) :
    (fuel : Nat) → (read : List Char) → Gap → Cursor → Option ScalarScan
  | 0, _, _, _ => none
  | fuel + 1, read, gap, c =>
    if c.atMarker || c.sees '#' then some ⟨read, gap.broken, c⟩
    else
      match plainWord inFlow c.rest with
      | none => none
      | some (word, _) =>
        let c := c.skip word.length
        let read := if word.isEmpty then read else read ++ gap.text ++ word
        let gap := if word.isEmpty then gap else {}
        if !startsWith isGap c.rest then some ⟨read, gap.broken, c⟩
        else
          match takeGap indent (c.rest.length + 1) {} c with
          | none => none
          | some (gap, c) =>
            if !inFlow && c.column < indent then some ⟨read, gap.broken, c⟩
            else plainWords inFlow indent fuel read gap c

def scanPlain (inFlow : Bool) (indent : Nat) (c : Cursor) : Option ScalarScan :=
  plainWords inFlow indent (c.rest.length + 1) [] {} c

def letterEscape? (c : Char) : Option Char :=
  match c with
  | '0' => some (Char.ofNat 0)
  | 'a' => some (Char.ofNat 7)
  | 'b' => some (Char.ofNat 8)
  | 't' | '\t' => some '\t'
  | 'n' => some '\n'
  | 'v' => some (Char.ofNat 11)
  | 'f' => some (Char.ofNat 12)
  | 'r' => some '\r'
  | 'e' => some (Char.ofNat 27)
  | ' ' => some ' '
  | '"' => some '"'
  | '/' => some '/'
  | '\\' => some '\\'
  | 'N' => some '\u0085'
  | '_' => some '\u00a0'
  | 'L' => some '\u2028'
  | 'P' => some '\u2029'
  | _ => none

def escapeWidth? (c : Char) : Option Nat :=
  match c with
  | 'x' => some 2
  | 'u' => some 4
  | 'U' => some 8
  | _ => none

/-- The character that an escape stands for, and its length after the backslash. -/
def readEscape? : List Char → Option (Char × Nat)
  | [] => none
  | c :: r =>
    match letterEscape? c with
    | some x => some (x, 1)
    | none =>
      match escapeWidth? c with
      | none => none
      | some width =>
        if r.length < width then none
        else
          match Number.readNat? 16 (r.take width) with
          | some n => if n.isValidChar then some (Char.ofNat n, width + 1) else none
          | none => none

/-- The words of a quoted scalar up to the next gap or the closing quote; `read` has its last
character first. The flag tells of an escaped line break just passed. -/
def quotedWord (single : Bool) : (fuel : Nat) → (read : List Char) → Cursor →
    Option (List Char × Bool × Cursor)
  | 0, _, _ => none
  | fuel + 1, read, c =>
    match c.rest with
    | [] => some (read, false, c)
    | x :: r =>
      if isGap x then some (read, false, c)
      else if single then
        if x == '\'' then
          if startsWith (· == '\'') r then quotedWord single fuel ('\'' :: read) (c.skip 2)
          else some (read, false, c)
        else quotedWord single fuel (x :: read) (c.skip 1)
      else if x == '"' then some (read, false, c)
      else if x == '\\' then
        if startsWith isBreak r then some (read, true, (c.skip 1).nextLine)
        else
          match readEscape? r with
          | some (y, width) => quotedWord single fuel (y :: read) (c.skip (width + 1))
          | none => none
      else quotedWord single fuel (x :: read) (c.skip 1)

/-- The words and gaps of a quoted scalar up to its closing quote. A document marker inside is an
error, and so is the end of the text. -/
def quotedWords (single : Bool) : (fuel : Nat) → (read : List Char) → Cursor → Option ScalarScan
  | 0, _, _ => none
  | fuel + 1, read, c =>
    if c.atMarker || c.rest.isEmpty then none
    else
      match quotedWord single (c.rest.length + 1) read c with
      | none => none
      | some (read, escaped, c) =>
        if c.sees (if single then '\'' else '"') then some ⟨read.reverse, false, c.skip 1⟩
        else
          match takeGap 0 (c.rest.length + 1) (if escaped then Gap.escapedBreak else {}) c with
          | none => none
          | some (gap, c) => quotedWords single fuel (gap.text.reverse ++ read) c

def scanQuoted (single : Bool) (c : Cursor) : Option ScalarScan :=
  quotedWords single (c.rest.length + 1) [] (c.skip 1)

inductive Chomp
  | strip
  | clip
  | keep
deriving DecidableEq

structure BlockHead where
  chomp : Chomp
  increment : Option Nat

def readChomp? (c : Char) : Option Chomp :=
  if c == '+' then some .keep else if c == '-' then some .strip else none

/-- Reads the signs of a block head in either order, each at most once; an increment of zero is an
error. -/
def readBlockHead (c : Cursor) : Option (BlockHead × Cursor) :=
  let digitAt (c : Cursor) : Option (Option Nat × Cursor) :=
    match c.rest with
    | x :: _ =>
      if x.isDigit then if x == '0' then none else some (some (x.toNat - 48), c.skip 1)
      else some (none, c)
    | [] => some (none, c)
  let chompAt (c : Cursor) : Option Chomp × Cursor :=
    match c.rest.head?.bind readChomp? with
    | some chomp => (some chomp, c.skip 1)
    | none => (none, c)
  match chompAt c with
  | (some chomp, c) => (digitAt c).map fun (increment, c) => (⟨chomp, increment⟩, c)
  | (none, c) =>
    match digitAt c with
    | none => none
    | some (none, c) => some (⟨.clip, none⟩, c)
    | some (some increment, c) =>
      let (chomp, c) := chompAt c
      some (⟨chomp.getD .clip, some increment⟩, c)

/-- The empty lines at the start of a block or between its lines, with the widest column met. Spaces
are passed up to column `indent`, or all of them while that is not known; a tab among them is an
error. The breaks come with the last one first. -/
def blockBreaks (indent : Option Nat) :
    (fuel : Nat) → (breaks : List Char) → (widest : Nat) → Cursor →
    Option (List Char × Nat × Cursor)
  | 0, _, _, _ => none
  | fuel + 1, breaks, widest, c =>
    let spaces := (c.word (· == ' ')).length
    let c := c.skip (match indent with
      | some i => min spaces (i - c.column)
      | none => spaces)
    let widest := max widest c.column
    if c.sees '\t' && (match indent with | some i => decide (c.column < i) | none => true) then none
    else
      match c.rest with
      | x :: _ =>
        if isBreak x then blockBreaks indent fuel (x :: breaks) widest c.nextLine
        else some (breaks, widest, c)
      | [] => some (breaks, widest, c)

structure BlockState where
  /-- The text, its last character first. -/
  read : List Char
  /-- The break after the last line. -/
  leading : Option Char
  /-- The breaks of the empty lines after it, the last one first. -/
  trailing : List Char
  /-- Whether the last line began with a blank. -/
  blank : Bool

/-- The text of the breaks before a line, its last character first. A folded block joins two lines
if neither begins with a blank. -/
def BlockState.join (s : BlockState) (folded nextBlank : Bool) : List Char :=
  let leading :=
    match s.leading with
    | some x =>
      if folded && x == '\n' && !s.blank && !nextBlank then if s.trailing.isEmpty then [' '] else []
      else [x]
    | none => []
  s.trailing ++ leading ++ s.read

def blockLines (folded : Bool) (indent : Nat) : (fuel : Nat) → BlockState → Cursor →
    Option (BlockState × Cursor)
  | 0, _, _ => none
  | fuel + 1, s, c =>
    if c.column != indent || c.rest.isEmpty then some (s, c)
    else
      let blank := startsWith isBlank c.rest
      let line := c.word fun x => !isBreak x
      let read := line.reverse ++ s.join folded blank
      let c := c.skip line.length
      let leading := c.rest.head?
      let c := if leading.isSome then c.nextLine else c
      match blockBreaks (some indent) (c.rest.length + 1) [] 0 c with
      | none => none
      | some (trailing, _, c) => blockLines folded indent fuel ⟨read, leading, trailing, blank⟩ c

def BlockState.close (s : BlockState) (chomp : Chomp) : List Char :=
  let withLast := s.leading.toList ++ s.read
  match chomp with
  | .strip => s.read.reverse
  | .clip => withLast.reverse
  | .keep => (s.trailing ++ withLast).reverse

/-- Reads a block from its sign on. `level` is one more than the column of the enclosing block, or
zero outside all blocks. -/
def scanBlock (folded : Bool) (level : Nat) (c : Cursor) : Option ScalarScan :=
  match readBlockHead (c.skip 1) with
  | none => none
  | some (head, c) =>
    let c := c.skipWhile isBlank
    let c := if c.sees '#' then c.skipWhile (fun x => !isBreak x) else c
    if !atLineEnd c.rest then none
    else
      let c := if c.rest.isEmpty then c else c.nextLine
      let written := head.increment.map fun n => if level = 0 then n else level - 1 + n
      match blockBreaks written (c.rest.length + 1) [] 0 c with
      | none => none
      | some (trailing, widest, c) =>
        let indent := written.getD (max (max widest level) 1)
        match blockLines folded indent (c.rest.length + 1) ⟨[], none, trailing, false⟩ c with
        | none => none
        | some (s, c) => some ⟨s.close head.chomp, false, c⟩

end Workflow.Yaml
