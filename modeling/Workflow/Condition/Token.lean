import Workflow.Condition.Fault
import Workflow.Text.Blank

namespace Workflow.Condition

inductive Binary
  | add
  | sub
  | mul
  | div
  | mod
  | pow
  | eq
  | ne
  | lt
  | gt
  | le
  | ge
  | and
  | or
deriving DecidableEq, Repr

inductive Token
  | binary (operator : Binary)
  | minus
  | not
  | openParen
  | closeParen
  | comma
  | semicolon
  /-- An assignment; `plain` unless it is combined with an operator. -/
  | assign (plain : Bool)
  | name (text : String)
  | int (value : Int)
  | float (value : Float)
  | bool (value : Bool)
  | text (value : String)

inductive Piece
  /-- One of the characters `+ - * / % ^ = ! < > & |`, which may belong to a longer token. -/
  | sign (c : Char)
  /-- One of the characters `( ) , ;`. -/
  | mark (c : Char)
  | quoted (text : String)
  | word (text : List Char)
  | space
deriving DecidableEq

def Piece.shown : Piece → String
  | sign c => String.ofList [c]
  | mark c => String.ofList [c]
  | quoted text => Text.showQuoted text
  | word text => String.ofList text
  | space => " "

def pieceOf (c : Char) : Piece :=
  if "+-*/%^=!<>&|".toList.contains c then .sign c
  else if "(),;".toList.contains c then .mark c
  else if Text.isBlank c then .space
  else .word [c]

/-- The text up to a closing quote, and what follows it; `read` has its last character first. A
backslash may stand before a quote or a backslash only. -/
def readQuoted (read : List Char) : List Char → Except Fault (String × List Char)
  | [] => .error .unmatchedQuote
  | '"' :: r => .ok (String.ofList read.reverse, r)
  | ['\\'] => .error (.illegalEscape "\\")
  | '\\' :: c :: r =>
    if c = '"' || c = '\\' then readQuoted (c :: read) r
    else .error (.illegalEscape (String.ofList ['\\', c]))
  | c :: r => readQuoted (c :: read) r

def skipLine (s : List Char) : List Char :=
  (s.dropWhile (· ≠ '\n')).drop 1

def skipComment : List Char → Option (List Char)
  | [] => none
  | '*' :: '/' :: r => some r
  | _ :: r => skipComment r

/-- Puts a piece behind those read, which have the last one first. Words that meet are one word. -/
def addPiece (read : List Piece) (p : Piece) : List Piece :=
  match read, p with
  | .word before :: earlier, .word text => .word (before ++ text) :: earlier
  | _, _ => p :: read

/-- Reads the pieces of a condition; `read` has the last one first. -/
def readPieces : (fuel : Nat) → (read : List Piece) → List Char → Except Fault (List Piece)
  | 0, read, _ => .ok read.reverse
  | _, read, [] => .ok read.reverse
  | fuel + 1, read, c :: r =>
    if c = '"' then
      match readQuoted [] r with
      | .error fault => .error fault
      | .ok (text, r) => readPieces fuel (addPiece read (.quoted text)) r
    else if c = '/' && r.head? == some '/' then readPieces fuel read (skipLine r)
    else if c = '/' && r.head? == some '*' then
      match skipComment (r.drop 1) with
      | none => .error .unmatchedComment
      | some r => readPieces fuel read r
    else readPieces fuel (addPiece read (pieceOf c)) r

def pieces (s : List Char) : Except Fault (List Piece) :=
  readPieces (s.length + 1) [] s

/-- Reads a whole number in base ten, or in base sixteen, eight or two behind its mark. -/
def readInt? (s : List Char) : Option Int :=
  let size :=
    match s with
    | '0' :: 'x' :: r => Number.readNat? 16 r
    | '0' :: 'o' :: r => Number.readNat? 8 r
    | '0' :: 'b' :: r => Number.readNat? 2 r
    | _ => Number.readNat? 10 s
  (size.map fun n => (n : Int)).filter fitsInt

def literal? (s : List Char) : Option Token :=
  match readInt? s with
  | some n => some (.int n)
  | none =>
    match Number.readFloat? s with
    | some x => some (.float x)
    | none =>
      if s = "true".toList then some (.bool true)
      else if s = "false".toList then some (.bool false)
      else none

def scientific? (s : List Char) (sign : Char) (third : Piece) : Option Float :=
  if sign = '+' || sign = '-' then Number.readFloat? (s ++ sign :: third.shown.toList) else none

def signToken (c : Char) : Token :=
  match c with
  | '+' => .binary .add
  | '-' => .minus
  | '*' => .binary .mul
  | '/' => .binary .div
  | '%' => .binary .mod
  | '^' => .binary .pow
  | '!' => .not
  | '<' => .binary .lt
  | '>' => .binary .gt
  | _ => .assign true

def signEqualsToken (c : Char) : Token :=
  match c with
  | '=' => .binary .eq
  | '!' => .binary .ne
  | '<' => .binary .le
  | '>' => .binary .ge
  | _ => .assign false

def markToken (c : Char) : Token :=
  match c with
  | '(' => .openParen
  | ')' => .closeParen
  | ',' => .comma
  | _ => .semicolon

/-- Whether a sign means something only when it is doubled. -/
def isDoubled (c : Char) : Bool :=
  c == '&' || c == '|'

def joinPieces : (fuel : Nat) → List Piece → Except Fault (List Token)
  | 0, _ => .ok []
  | _, [] => .ok []
  | fuel + 1, .space :: r => joinPieces fuel r
  | fuel + 1, .mark c :: r => (joinPieces fuel r).map (markToken c :: ·)
  | fuel + 1, .quoted text :: r => (joinPieces fuel r).map (.text text :: ·)
  | fuel + 1, .word s :: r =>
    match literal? s with
    | some t => (joinPieces fuel r).map (t :: ·)
    | none =>
      match r with
      | .sign c :: third :: rest =>
        match scientific? s c third with
        | some x => (joinPieces fuel rest).map (.float x :: ·)
        | none => (joinPieces fuel r).map (.name (String.ofList s) :: ·)
      | _ => (joinPieces fuel r).map (.name (String.ofList s) :: ·)
  | fuel + 1, .sign c :: r =>
    if isDoubled c then
      let operator : Binary := if c = '&' then .and else .or
      match r with
      | .sign d :: rest =>
        if d = c then
          match rest with
          | .sign '=' :: rest => (joinPieces fuel rest).map (.assign false :: ·)
          | _ => (joinPieces fuel rest).map (.binary operator :: ·)
        else .error (.partialToken (String.ofList [c]) (some (String.ofList [d])))
      | p :: _ => .error (.partialToken (String.ofList [c]) (some p.shown))
      | [] => .error (.partialToken (String.ofList [c]) none)
    else
      match r with
      | .sign '=' :: rest => (joinPieces fuel rest).map (signEqualsToken c :: ·)
      | _ => (joinPieces fuel r).map (signToken c :: ·)

def tokens (s : List Char) : Except Fault (List Token) :=
  match pieces s with
  | .ok ps => joinPieces (ps.length + 1) ps
  | .error fault => .error fault

end Workflow.Condition
