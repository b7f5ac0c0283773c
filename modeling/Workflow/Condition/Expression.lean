import Workflow.Condition.Token
/-!
Expressions: operators over their operands. They are grown token by token; an operator that binds
more weakly than what was read last takes it as its operand.
-/

namespace Workflow.Condition

inductive Operator
  /-- The whole expression, or what is in parentheses. -/
  | group
  | binary (operator : Binary)
  | negate
  | not
  | assign (plain : Bool)
  | tuple
  | chain
  | constant (value : Value)
  /-- The target of an assignment. -/
  | target (name : String)
  | lookup (name : String)
  | call (name : String)

namespace Operator

def precedence : Operator → Nat
  | group => 200
  | constant _ => 200
  | target _ => 200
  | lookup _ => 200
  | call _ => 190
  | binary .pow => 120
  | negate => 110
  | not => 110
  | binary .mul => 100
  | binary .div => 100
  | binary .mod => 100
  | binary .add => 95
  | binary .sub => 95
  | binary .and => 75
  | binary .or => 70
  | binary _ => 80
  | assign _ => 50
  | tuple => 40
  | chain => 0

/-- The number of operands that fill an operator; tuples and chains are never full. -/
def capacity? : Operator → Option Nat
  | group => some 1
  | binary _ => some 2
  | negate => some 1
  | not => some 1
  | assign _ => some 2
  | tuple => none
  | chain => none
  | constant _ => some 0
  | target _ => some 0
  | lookup _ => some 0
  | call _ => some 1

def isLeaf (o : Operator) : Bool :=
  o.capacity? == some 0

def isUnary : Operator → Bool
  | negate => true
  | not => true
  | call _ => true
  | _ => false

def isRightGrouped : Operator → Bool
  | assign plain => plain
  | call _ => true
  | _ => false

def isSequence : Operator → Bool
  | tuple => true
  | chain => true
  | _ => false

def sameSequence : Operator → Operator → Bool
  | tuple, tuple => true
  | chain, chain => true
  | _, _ => false

def isGroup : Operator → Bool
  | group => true
  | _ => false

/-- Whether `inner`, put under `outer`, takes the place of its last operand: it binds more strongly,
is unary, or both are grouped from the right with equal strength. -/
def admits (outer inner : Operator) : Bool :=
  outer.precedence < inner.precedence || inner.isUnary ||
    (outer.precedence == inner.precedence && outer.isRightGrouped && inner.isRightGrouped)

end Operator

/-- An operator with its operands, the last one first. -/
inductive Expression
  | node (operator : Operator) (operands : List Expression)

namespace Expression

def operator : Expression → Operator
  | node o _ => o

def operands : Expression → List Expression
  | node _ xs => xs

def emptyGroup : Expression :=
  node .group []

def push : Expression → Expression → Expression
  | node o xs, x => node o (x :: xs)

def isOverfull : Expression → Bool
  | node o xs =>
    match o.capacity? with
    | some n => n < xs.length
    | none => false

/-- Puts `x` in the place of the last operand `last`, which becomes the operand of `x`. A group
takes no second expression, and no group becomes the only content of a group. -/
def rotate (o : Operator) (last : Expression) (earlier : List Expression) (x : Expression) :
    Except Fault Expression :=
  if x.operator.isLeaf then .error .appendedToLeaf
  else if o.isGroup && (!earlier.isEmpty || x.operator.isGroup) then .error .missingOperator
  else if x.operator.isGroup && (!x.operands.isEmpty || last.operator.isGroup) then
    .error .missingOperator
  else .ok (node o (x.push last :: earlier))

/-- Inserts an expression as the last operand, as deep on the right as its strength asks for. -/
def insert : Expression → (isRoot : Bool) → Expression → Except Fault Expression
  | node o xs, isRoot, x =>
    if !(isRoot || o.admits x.operator) then .error .precedence
    else if o.isLeaf then .error .appendedToLeaf
    else if o.capacity? == some xs.length then
      match xs with
      | [] => .error .appendedToLeaf
      | last :: earlier =>
        if last.operator.admits x.operator then
          match insert last false x with
          | .ok last => .ok (node o (last :: earlier))
          | .error fault => .error fault
        else rotate o last earlier x
    else .ok (node o (x :: xs))

end Expression

/-- The expressions that are still open, the innermost first. There is always at least one. -/
abbrev Open := List Expression

namespace Open

def closeSequences : Expression → Open → Except Fault Open
  | x, [] =>
    if !x.operator.isGroup then .error .unmatchedClosing
    else if x.isOverfull then .error .missingOperator
    else .ok [x]
  | x, outer :: rest =>
    if !x.operator.isGroup then closeSequences (outer.push x) rest
    else if x.isOverfull then .error .missingOperator
    else .ok (x :: outer :: rest)

/-- Closes what binds more strongly than `strength` around `x`. -/
def closeDownTo (strength : Nat) : Expression → Open → Except Fault (Expression × Open)
  | _, [] => .error .unmatchedClosing
  | x, outer :: rest =>
    if strength < outer.operator.precedence then closeDownTo strength (outer.push x) rest
    else .ok (x, outer :: rest)

def addSequence (o : Operator) (x : Expression) (rest : Open) : Except Fault Open :=
  if x.operator.sameSequence o then .ok (x.push .emptyGroup :: rest)
  else if x.operator.isGroup then
    .ok (.node o [.emptyGroup, x] :: .emptyGroup :: rest)
  else if x.operator.precedence < o.precedence then
    match x with
    | .node p (last :: earlier) => .ok (.node o [.emptyGroup, last] :: .node p earlier :: rest)
    | .node _ [] => .error .unmatchedClosing
  else
    match closeDownTo o.precedence x rest with
    | .error fault => .error fault
    | .ok (x, rest) => .ok (.node o [x] :: rest)

def addNode (e x : Expression) (rest : Open) : Except Fault Open :=
  if x.operator.isSequence then
    match x with
    | .node o (last :: earlier) => (last.insert true e).map fun last =>
      .node o (last :: earlier) :: rest
    | .node _ [] => .error .unmatchedClosing
  else (x.insert true e).map (· :: rest)

def add (e : Expression) : Open → Except Fault Open
  | [] => .error .unmatchedClosing
  | x :: rest =>
    if e.operator.isSequence then addSequence e.operator x rest else addNode e x rest

end Open

namespace Token

/-- Whether a token can be the operand of what stands before it. -/
def beginsOperand : Token → Bool
  | openParen => true
  | name _ => true
  | int _ => true
  | float _ => true
  | bool _ => true
  | text _ => true
  | _ => false

def endsOperand : Token → Bool
  | closeParen => true
  | name _ => true
  | int _ => true
  | float _ => true
  | bool _ => true
  | text _ => true
  | _ => false

/-- The role of a name, from the token after it: the target of an assignment, a function before an
operand, and else a variable. -/
def nameRole (name : String) : Option Token → Operator
  | some (.assign _) => .target name
  | some t => if t.beginsOperand then .call name else .lookup name
  | none => .lookup name

/-- The operator that a token stands for; parentheses stand for none. `operandBefore` tells whether
the token before it ends an operand. -/
def operator? (operandBefore : Bool) (next : Option Token) : Token → Option Operator
  | binary o => some (.binary o)
  | minus => some (if operandBefore then .binary .sub else .negate)
  | not => some .not
  | openParen => none
  | closeParen => none
  | comma => some .tuple
  | semicolon => some .chain
  | assign plain => some (.assign plain)
  | name n => some (nameRole n next)
  | int n => some (.constant (.int n))
  | float x => some (.constant (.float x))
  | bool b => some (.constant (.bool b))
  | text s => some (.constant (.string s))

end Token

namespace Open

def closeParen : Open → Except Fault Open
  | x :: y :: rest =>
    match closeSequences x (y :: rest) with
    | .error fault => .error fault
    | .ok (closed :: rest) => add closed rest
    | .ok [] => .error .unmatchedClosing
  | _ => .error .unmatchedClosing

def take (operandBefore : Bool) (next : Option Token) (t : Token) (s : Open) : Except Fault Open :=
  match t with
  | .openParen => .ok (.emptyGroup :: s)
  | .closeParen => s.closeParen
  | t =>
    match t.operator? operandBefore next with
    | some o => add (.node o []) s
    | none => .ok s

def takeAll (operandBefore : Bool) : List Token → Open → Except Fault Open
  | [], s => .ok s
  | t :: r, s =>
    match take operandBefore r.head? t s with
    | .ok s => takeAll t.endsOperand r s
    | .error fault => .error fault

def finish : Open → Except Fault Expression
  | [] => .error .unmatchedClosing
  | x :: rest =>
    match closeSequences x rest with
    | .error fault => .error fault
    | .ok [whole] => .ok whole
    | .ok _ => .error .unmatchedOpening

end Open

def Expression.ofTokens (ts : List Token) : Except Fault Expression :=
  match Open.takeAll false ts [.emptyGroup] with
  | .ok s => s.finish
  | .error fault => .error fault

def Expression.read (s : List Char) : Except Fault Expression :=
  match tokens s with
  | .ok ts => Expression.ofTokens ts
  | .error fault => .error fault

end Workflow.Condition
