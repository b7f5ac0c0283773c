import Workflow.Json
import Workflow.Text.Shown

namespace Workflow.Condition

/-- A value. Whole numbers lie between `-2 ^ 63` and `2 ^ 63 - 1`. -/
inductive Value
  | string (text : String)
  | int (value : Int)
  | float (value : Float)
  | bool (value : Bool)
  | tuple (items : List Value)
  | empty
deriving Inhabited

def intLimit : Int :=
  Number.power 2 63

def fitsInt (n : Int) : Bool :=
  -intLimit ≤ n && n < intLimit

/-- Doubles in messages are positional from `10 ^ -4` up to, but not including, `10 ^ 16`; an exact
tie between two shortest decimals goes up. -/
def messageForm : Number.FloatText where
  leastPosition := -3
  greatestPosition := 16
  tie := .up
  infinity := "inf"
  notANumber := "NaN"

/-- Doubles that become texts are always positional. -/
def plainForm : Number.FloatText where
  leastPosition := -400
  greatestPosition := 400
  tie := .up
  infinity := "inf"
  notANumber := "NaN"

/-- A double as a text; whole numbers have no point. -/
def plainFloat (x : Float) : String :=
  let text := (plainForm.write x).toList
  match text.reverse with
  | '0' :: '.' :: r => String.ofList r.reverse
  | _ => String.ofList text

namespace Value

def typeName : Value → String
  | string _ => "String"
  | int _ => "Int"
  | float _ => "Float"
  | bool _ => "Boolean"
  | tuple _ => "Tuple"
  | empty => "Empty"

def boolText (b : Bool) : String :=
  if b then "true" else "false"

mutual

def shown : Value → String
  | string s => "String(" ++ Text.showQuoted s ++ ")"
  | int n => "Int(" ++ toString n ++ ")"
  | float x => "Float(" ++ messageForm.write x ++ ")"
  | bool b => "Boolean(" ++ boolText b ++ ")"
  | tuple items => "Tuple([" ++ shownItems items ++ "])"
  | empty => "Empty"

def shownItems : List Value → String
  | [] => ""
  | [x] => x.shown
  | x :: xs => x.shown ++ ", " ++ shownItems xs

end

mutual

/-- A value as it is written inside a tuple: texts stand in quotes, just as they are. -/
def written : Value → String
  | string s => "\"" ++ s ++ "\""
  | int n => toString n
  | float x => plainFloat x
  | bool b => boolText b
  | tuple items => "(" ++ writtenItems items ++ ")"
  | empty => "()"

def writtenItems : List Value → String
  | [] => ""
  | [x] => x.written
  | x :: xs => x.written ++ ", " ++ writtenItems xs

end

def text : Value → String
  | string s => s
  | v => v.written

mutual

/-- Equality of values. Whole numbers and doubles are never equal; doubles are compared as
numbers. -/
def same : Value → Value → Bool
  | string a, string b => a == b
  | int a, int b => a == b
  | float a, float b => a == b
  | bool a, bool b => a == b
  | tuple xs, tuple ys => sameItems xs ys
  | empty, empty => true
  | _, _ => false

def sameItems : List Value → List Value → Bool
  | [], [] => true
  | x :: xs, y :: ys => same x y && sameItems xs ys
  | _, _ => false

end

def floatOfInt (n : Int) : Float :=
  let size := Float.ofScientific n.natAbs false 0
  if n < 0 then -size else size

/-- The value that a variable is bound to: texts, truth values and numbers; null, arrays and objects
bind nothing. -/
def ofJson? : Json → Option Value
  | .string s => some (string s)
  | .bool b => some (bool b)
  | .number (.int n) => some (if fitsInt n then int n else float (floatOfInt n))
  | .number (.float x) => some (float x)
  | _ => none

end Value

end Workflow.Condition
