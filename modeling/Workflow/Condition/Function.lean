import Workflow.Condition.Fault
import Workflow.Text.Blank
import Workflow.Text.Case

namespace Workflow.Condition

namespace Value

def asString : Value → Except Fault String
  | string s => .ok s
  | v => .error (.type .string v)

def asInt : Value → Except Fault Int
  | int n => .ok n
  | v => .error (.type .int v)

def asNumber : Value → Except Fault Float
  | int n => .ok (floatOfInt n)
  | float x => .ok x
  | v => .error (.type .number v)

def asBool : Value → Except Fault Bool
  | bool b => .ok b
  | v => .error (.type .boolean v)

def asTuple : Value → Except Fault (List Value)
  | tuple items => .ok items
  | v => .error (.type .tuple v)

def asPair : Value → Except Fault (Value × Value)
  | tuple [a, b] => .ok (a, b)
  | tuple items => .error (.type (.tupleOf 2) (tuple items))
  | v => .error (.type .tuple v)

def asTriple : Value → Except Fault (Value × Value × Value)
  | tuple [a, b, c] => .ok (a, b, c)
  | tuple items => .error (.type (.tupleOf 3) (tuple items))
  | v => .error (.type .tuple v)

def isScalar : Value → Bool
  | tuple _ => false
  | empty => false
  | _ => true

def scalarTypes : List String := ["String", "Int", "Float", "Boolean"]

def asScalar (v : Value) : Except Fault Value :=
  if v.isScalar then .ok v else .error (.type (.oneOf scalarTypes) v)

def kindName : Value → String
  | string _ => "string"
  | int _ => "int"
  | float _ => "float"
  | bool _ => "boolean"
  | tuple _ => "tuple"
  | empty => "empty"

end Value

/-- The extreme whole number and the extreme double among some numbers, each from a start. -/
def extremes (int : Int → Int → Int) (float : Float → Float → Float) (start : Int × Float) :
    List Value → Except Fault (Int × Float)
  | [] => .ok start
  | .int n :: rest => extremes int float (int start.1 n, start.2) rest
  | .float x :: rest => extremes int float (start.1, float start.2 x) rest
  | v :: _ => .error (.type .number v)

/-- The smaller of two doubles; what is not a number does not count. -/
def floatMin (x y : Float) : Float :=
  if x.isNaN then y else if y.isNaN then x else if y < x then y else x

def floatMax (x y : Float) : Float :=
  if x.isNaN then y else if y.isNaN then x else if x < y then y else x

def minimum (argument : Value) : Except Fault Value := do
  let items ← argument.asTuple
  let (n, x) ← extremes min floatMin (intLimit - 1, 1.0 / 0.0) items
  .ok (if Value.floatOfInt n < x then .int n else .float x)

def maximum (argument : Value) : Except Fault Value := do
  let items ← argument.asTuple
  let (n, x) ← extremes max floatMax (-intLimit, -1.0 / 0.0) items
  .ok (if x < Value.floatOfInt n then .int n else .float x)

/-- The size of a text in UTF-8, or of a tuple. -/
def length : Value → Except Fault Value
  | .string s => .ok (.int s.utf8ByteSize)
  | .tuple items => .ok (.int items.length)
  | v => .error (.type (.oneOf ["String", "Tuple"]) v)

def contains (argument : Value) : Except Fault Value := do
  let (items, x) ← argument.asPair
  let items ← items.asTuple
  let x ← x.asScalar
  .ok (.bool (items.any fun y => y.same x))

/-- Whether some values have one of others, which are looked for in order up to the first found. -/
def findAny (items : List Value) : List Value → Except Fault Bool
  | [] => .ok false
  | x :: rest => do
    let x ← x.asScalar
    if items.any fun y => y.same x then .ok true else findAny items rest

def containsAny (argument : Value) : Except Fault Value := do
  let (items, xs) ← argument.asPair
  let items ← items.asTuple
  let xs ← xs.asTuple
  (findAny items xs).map .bool

def choose (argument : Value) : Except Fault Value := do
  let (test, a, b) ← argument.asTriple
  let test ← test.asBool
  .ok (if test then a else b)

def absolute : Value → Except Fault Value
  | .int n => if fitsInt n.natAbs then .ok (.int n.natAbs) else .error (.negation n)
  | .float x => .ok (.float x.abs)
  | v => .error (.type .number v)

/-- A text from and up to an octet, counted from zero; the end may be missing. -/
def substring (s : String) (first last : Int) : Except Fault Value :=
  if first < 0 || last < first || (s.utf8ByteSize : Int) < last then .error .outOfBounds
  else
    match String.fromUTF8? (s.toUTF8.extract first.toNat last.toNat) with
    | some part => .ok (.string part)
    | none => .error .outOfBounds

def substringOf : Value → Except Fault Value
  | .tuple items => do
    let (s, first, last) ←
      match items with
      | [s, first] => .ok (s, first, none)
      | [s, first, last] => .ok (s, first, some last)
      | items => .error (.type (.tupleOfRange 2 3) (.tuple items))
    let s ← s.asString
    let first ← first.asInt
    if first < 0 then .error .outOfBounds
    else
      match last with
      | some last => do substring s first (← last.asInt)
      | none => substring s first s.utf8ByteSize
  | v => .error (.type .tuple v)

def ofNumber (f : Float → Float) (argument : Value) : Except Fault Value :=
  argument.asNumber.map fun x => .float (f x)

def ofTest (f : Float → Bool) (argument : Value) : Except Fault Value :=
  argument.asNumber.map fun x => .bool (f x)

def ofNumbers (f : Float → Float → Float) (argument : Value) : Except Fault Value := do
  let (a, b) ← argument.asPair
  let a ← a.asNumber
  let b ← b.asNumber
  .ok (.float (f a b))

def ofString (f : String → String) (argument : Value) : Except Fault Value :=
  argument.asString.map fun s => .string (f s)

def ofWords (f : Int64 → Int64 → Int64) (argument : Value) : Except Fault Value := do
  let (a, b) ← argument.asPair
  let a ← a.asInt
  let b ← b.asInt
  .ok (.int (f (.ofInt a) (.ofInt b)).toInt)

def trimText (s : String) : String :=
  String.ofList (Text.trim s.toList)

/-- Whether a double has a full significand: it is finite, not zero and not subnormal. -/
def isNormal (x : Float) : Bool :=
  let exponent := x.toBits.toNat / Number.power 2 52 % 2048
  exponent != 0 && exponent != 2047

def numberFunctions : List (String × (Float → Float)) :=
  [("floor", Float.floor), ("ceil", Float.ceil), ("round", Float.round),
   ("math::sqrt", Float.sqrt), ("math::cbrt", Float.cbrt),
   ("math::exp", Float.exp), ("math::exp2", Float.exp2),
   ("math::ln", Float.log), ("math::log2", Float.log2), ("math::log10", Float.log10),
   ("math::sin", Float.sin), ("math::cos", Float.cos), ("math::tan", Float.tan),
   ("math::asin", Float.asin), ("math::acos", Float.acos), ("math::atan", Float.atan),
   ("math::sinh", Float.sinh), ("math::cosh", Float.cosh), ("math::tanh", Float.tanh),
   ("math::asinh", Float.asinh), ("math::acosh", Float.acosh), ("math::atanh", Float.atanh)]

def numbersFunctions : List (String × (Float → Float → Float)) :=
  [("math::pow", Float.pow), ("math::atan2", Float.atan2),
   ("math::log", fun x base => x.log / base.log),
   ("math::hypot", fun x y => (x * x + y * y).sqrt)]

def numberTests : List (String × (Float → Bool)) :=
  [("math::is_nan", Float.isNaN), ("math::is_finite", Float.isFinite),
   ("math::is_infinite", Float.isInf), ("math::is_normal", isNormal)]

def wordFunctions : List (String × (Int64 → Int64 → Int64)) :=
  [("bitand", (· &&& ·)), ("bitor", (· ||| ·)), ("bitxor", (· ^^^ ·)),
   ("shl", (· <<< ·)), ("shr", (· >>> ·))]

def otherFunctions : List (String × (Value → Except Fault Value)) :=
  [("min", minimum), ("max", maximum), ("len", length), ("if", choose),
   ("contains", contains), ("contains_any", containsAny),
   ("typeof", fun v => .ok (.string v.kindName)),
   ("math::abs", absolute),
   ("bitnot", fun v => v.asInt.map fun n => .int (-n - 1)),
   ("str::to_lowercase", ofString Text.toLower), ("str::to_uppercase", ofString Text.toUpper),
   ("str::trim", ofString trimText), ("str::from", fun v => .ok (.string v.text)),
   ("str::substring", substringOf)]

def functions : List (String × (Value → Except Fault Value)) :=
  otherFunctions ++
  numberFunctions.map (fun (name, f) => (name, ofNumber f)) ++
  numbersFunctions.map (fun (name, f) => (name, ofNumbers f)) ++
  numberTests.map (fun (name, f) => (name, ofTest f)) ++
  wordFunctions.map (fun (name, f) => (name, ofWords f))

def callFunction (name : String) (argument : Value) : Except Fault Value :=
  match functions.lookup name with
  | some f => f argument
  | none => .error (.unboundFunction name)

end Workflow.Condition
