import Workflow.Number.Shortest

namespace Workflow.Number

structure FloatText where
  /-- Least position of the decimal point that is written without an exponent. -/
  leastPosition : Int
  /-- Greatest such position. -/
  greatestPosition : Int
  tie : Tie
  infinity : String
  notANumber : String

/-- Digits, with a point at `position` and a digit on either side of it. -/
def positional (digits : List Char) (position : Int) : List Char :=
  if position ≤ 0 then
    '0' :: '.' :: (List.replicate (-position).toNat '0' ++ digits)
  else
    let p := position.toNat
    if digits.length ≤ p then digits ++ List.replicate (p - digits.length) '0' ++ ['.', '0']
    else digits.take p ++ '.' :: digits.drop p

/-- One digit, a point and the others if there are any, and the exponent. -/
def scientific (digits : List Char) (position : Int) : List Char :=
  let mantissa :=
    match digits with
    | [] => ['0']
    | [d] => [d]
    | d :: ds => d :: '.' :: ds
  mantissa ++ 'e' :: (toString (position - 1)).toList

def FloatText.writeDecimal (form : FloatText) (d : Decimal) : List Char :=
  let digits := Nat.toDigits 10 d.digits
  let position := digits.length + d.exponent
  if form.leastPosition ≤ position && position ≤ form.greatestPosition then
    positional digits position
  else scientific digits position

def FloatText.write (form : FloatText) (x : Float) : String :=
  let minus := x.toBits.toNat / power 2 63 = 1
  if x.isNaN then form.notANumber
  else
    let size :=
      if x.isInf then form.infinity.toList
      else
        match Binary.ofFloat? x with
        | none => ['0', '.', '0']
        | some b => form.writeDecimal (b.shortest form.tie)
    String.ofList (if minus then '-' :: size else size)

end Workflow.Number
