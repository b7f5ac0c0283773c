import Workflow.Tree

namespace Workflow.Yaml

def isNullWord (s : List Char) : Bool :=
  ["null", "Null", "NULL", "~"].any (·.toList == s)

def readBool? (s : List Char) : Option Bool :=
  if ["true", "True", "TRUE"].any (·.toList == s) then some true
  else if ["false", "False", "FALSE"].any (·.toList == s) then some false
  else none

/-- Whether a scalar is a run of digits with a leading zero and so, with or without a sign, no
number. -/
def isPaddedDigits (s : List Char) : Bool :=
  let digits :=
    match s with
    | '-' :: r => r
    | '+' :: r => r
    | _ => s
  match digits with
  | '0' :: r => !r.isEmpty && r.all Char.isDigit
  | _ => false

/-- The digits after a mark for base sixteen, eight or two, and the base. -/
def takeBase : List Char → Option (Nat × List Char)
  | '0' :: 'x' :: r => some (16, r)
  | '0' :: 'o' :: r => some (8, r)
  | '0' :: 'b' :: r => some (2, r)
  | _ => none

def readDigits? (s : List Char) : Option Nat :=
  match takeBase s with
  | some (base, digits) => Number.readNat? base digits
  | none => Number.readNat? 10 s

def readInt? (s : List Char) : Option Int :=
  if isPaddedDigits s then none
  else
    match s with
    | '-' :: r => (readDigits? r).map fun n => -(n : Int)
    | '+' :: r => (readDigits? r).map fun n => (n : Int)
    | _ => (readDigits? s).map fun n => (n : Int)

inductive IntRange
  /-- It fits into 64 bits and is a number. -/
  | narrow
  /-- It fits into 128 bits only, which is an error. -/
  | wide
  /-- It is too large even for that and is read as a double. -/
  | huge
deriving DecidableEq

def IntRange.of (n : Int) : IntRange :=
  if -(Number.power 2 63 : Int) ≤ n ∧ n < Number.power 2 64 then .narrow
  else if -(Number.power 2 127 : Int) ≤ n ∧ n < Number.power 2 128 then .wide
  else .huge

/-- Reads a double: one of the words for infinity, with a sign that may be missing, the words for
what is not a number, or a finite numeral. -/
def readFloat? (s : List Char) : Option Float :=
  let unsigned :=
    match s with
    | '+' :: r => r
    | _ => s
  if [".inf", ".Inf", ".INF"].any (·.toList == unsigned) then some (1.0 / 0.0)
  else if ["-.inf", "-.Inf", "-.INF"].any (·.toList == s) then some (-1.0 / 0.0)
  else if [".nan", ".NaN", ".NAN"].any (·.toList == s) then some (0.0 / 0.0)
  else
    match s, unsigned with
    | '+' :: _, '+' :: _ => none
    | '+' :: _, '-' :: _ => none
    | _, _ => (Number.readNumeral? unsigned).filter Float.isFinite

/-- Reads a whole number or, if it is huge, a double; `none` where the text is neither, and within
it `none` for a number of the wide range. -/
def readIntTree? (s : List Char) : Option (Option Tree) :=
  match readInt? s with
  | some n =>
    match IntRange.of n with
    | .narrow => some (some (.number (.int n)))
    | .wide => some none
    | .huge => none
  | none => none

/-- The value of a plain scalar; `none` for a whole number of the wide range. -/
def plainTree? (s : List Char) : Option Tree :=
  if s.isEmpty || isNullWord s then some .null
  else
    match readBool? s with
    | some b => some (.bool b)
    | none =>
      match readIntTree? s with
      | some result => result
      | none =>
        match if isPaddedDigits s then none else readFloat? s with
        | some x => some (.number (.float x))
        | none => some (.string (String.ofList s))

end Workflow.Yaml
