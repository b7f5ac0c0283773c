import Workflow.Condition.Expression
import Workflow.Condition.Function
import Workflow.Number.Remainder
/-!
The value of a condition under bindings of its variables. Operands are evaluated from left to right,
all of them; the two logical operators do not stop early.
-/

namespace Workflow

/-- The variables of a simulation, with the JSON values that they are bound to. Of two values for
one name the first counts. -/
abbrev Bindings := List (String × Json)

namespace Condition

def valueOf? (vars : Bindings) (name : String) : Option Value :=
  (vars.lookup name).bind Value.ofJson?

def expectNumberOrString (v : Value) : Except Fault Unit :=
  match v with
  | .string _ => .ok ()
  | .int _ => .ok ()
  | .float _ => .ok ()
  | v => .error (.type .numberOrString v)

/-- The result of an operation on whole numbers, if 64 bits hold it. -/
def checkInt (operation : Arithmetic) (a b result : Int) : Except Fault Value :=
  if fitsInt result then .ok (.int result) else .error (.outOfRange operation a b)

/-- The quotient, cut toward zero. -/
def divideInt (a b : Int) : Except Fault Value :=
  if b = 0 then .error (.outOfRange .divide a b) else checkInt .divide a b (a.tdiv b)

def remainderInt (a b : Int) : Except Fault Value :=
  if b = 0 || !fitsInt (a.tdiv b) then .error (.outOfRange .remainder a b)
  else .ok (.int (a.tmod b))

/-- An operation on two numbers: on whole numbers if both are, else on doubles. -/
def onNumbers (ints : Int → Int → Except Fault Value) (floats : Float → Float → Float)
    (a b : Value) :
    Except Fault Value := do
  let x ← a.asNumber
  let y ← b.asNumber
  match a, b with
  | .int m, .int n => ints m n
  | _, _ => .ok (.float (floats x y))

def addValues (a b : Value) : Except Fault Value := do
  expectNumberOrString a
  expectNumberOrString b
  match a, b with
  | .string s, .string t => .ok (.string (s ++ t))
  | .string _, _ => .error (.wrongTypes [a.typeName, b.typeName])
  | _, .string _ => .error (.wrongTypes [a.typeName, b.typeName])
  | _, _ => onNumbers (fun m n => checkInt .add m n (m + n)) (· + ·) a b

def compareValues (strings : String → String → Bool) (ints : Int → Int → Bool)
    (floats : Float → Float → Bool) (a b : Value) : Except Fault Value := do
  expectNumberOrString a
  expectNumberOrString b
  match a, b with
  | .string s, .string t => .ok (.bool (strings s t))
  | .int m, .int n => .ok (.bool (ints m n))
  | _, _ =>
    let x ← a.asNumber
    let y ← b.asNumber
    .ok (.bool (floats x y))

def onBools (f : Bool → Bool → Bool) (a b : Value) : Except Fault Value := do
  let x ← a.asBool
  let y ← b.asBool
  .ok (.bool (f x y))

def Binary.apply (o : Binary) (a b : Value) : Except Fault Value :=
  match o with
  | .add => addValues a b
  | .sub => onNumbers (fun m n => checkInt .subtract m n (m - n)) (· - ·) a b
  | .mul => onNumbers (fun m n => checkInt .multiply m n (m * n)) (· * ·) a b
  | .div => onNumbers divideInt (· / ·) a b
  | .mod => onNumbers remainderInt Number.floatRemainder a b
  | .pow => do
    let x ← a.asNumber
    let y ← b.asNumber
    .ok (.float (x.pow y))
  | .eq => .ok (.bool (a.same b))
  | .ne => .ok (.bool (!a.same b))
  | .lt => compareValues (· < ·) (· < ·) (· < ·) a b
  | .gt => compareValues (· > ·) (· > ·) (· > ·) a b
  | .le => compareValues (· ≤ ·) (· ≤ ·) (· ≤ ·) a b
  | .ge => compareValues (· ≥ ·) (· ≥ ·) (· ≥ ·) a b
  | .and => onBools (· && ·) a b
  | .or => onBools (· || ·) a b

def negateValue : Value → Except Fault Value
  | .int n => if fitsInt (-n) then .ok (.int (-n)) else .error (.negation n)
  | .float x => .ok (.float (-x))
  | v => .error (.type .number v)

def Operator.apply (vars : Bindings) (o : Operator) (operands : List Value) : Except Fault Value :=
  match o, operands with
  | .group, [] => .ok .empty
  | .group, v :: _ => .ok v
  | .binary o, [a, b] => o.apply a b
  | .binary _, vs => .error (.operatorArity 2 vs.length)
  | .negate, [v] => negateValue v
  | .negate, vs => .error (.operatorArity 1 vs.length)
  | .not, [v] => v.asBool.map fun b => .bool (!b)
  | .not, vs => .error (.operatorArity 1 vs.length)
  | .assign _, _ => .error .readOnly
  | .tuple, vs => .ok (.tuple vs)
  | .chain, vs =>
    match vs.getLast? with
    | some v => .ok v
    | none => .error (.operatorArity 1 0)
  | .constant v, [] => .ok v
  | .constant _, vs => .error (.operatorArity 0 vs.length)
  | .target name, [] => .ok (.string name)
  | .target _, vs => .error (.operatorArity 0 vs.length)
  | .lookup name, [] =>
    match valueOf? vars name with
    | some v => .ok v
    | none => .error (.unboundVariable name)
  | .lookup _, vs => .error (.operatorArity 0 vs.length)
  | .call name, [v] => callFunction name v
  | .call _, vs => .error (.operatorArity 1 vs.length)

mutual

def Expression.evaluate (vars : Bindings) : Expression → Except Fault Value
  | .node o operands =>
    match evaluateAll vars operands with
    | .ok vs => o.apply vars vs
    | .error fault => .error fault

/-- The values of operands that are given with the last one first, in their written order. -/
def Expression.evaluateAll (vars : Bindings) : List Expression → Except Fault (List Value)
  | [] => .ok []
  | last :: earlier =>
    match evaluateAll vars earlier with
    | .error fault => .error fault
    | .ok vs =>
      match last.evaluate vars with
      | .ok v => .ok (vs ++ [v])
      | .error fault => .error fault

end

def evaluate (vars : Bindings) (text : String) : Except Fault Value :=
  match Expression.read text.toList with
  | .ok e => e.evaluate vars
  | .error fault => .error fault

/-- Whether a condition holds; its value has to be a truth value. -/
def holds (vars : Bindings) (text : String) : Except Fault Bool :=
  match evaluate vars text with
  | .ok v => v.asBool
  | .error fault => .error fault

end Condition

end Workflow
