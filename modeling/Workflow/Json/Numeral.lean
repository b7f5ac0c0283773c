import Workflow.Number
/-!
JSON numerals. A numeral without point and exponent is a whole number if 64 bits hold it. Any
other is a double, formed from the first digits that fit into 64 bits and one power of ten; where
both are exact this is the nearest double.
-/

namespace Workflow.Json

/-- The digits read so far: a 64-bit significand and a power of ten. Digits that no longer fit are
dropped, and `full` is set with the first of them. -/
structure Significand where
  value : Nat
  exponent : Int
  full : Bool

/-- Takes one more digit; `shift` is what a digit that is kept, and `dropped` what one that is
not, adds to the exponent. -/
def Significand.take (shift dropped : Int) (s : Significand) (c : Char) : Significand :=
  let next := s.value * 10 + (c.toNat - 48)
  if s.full || next ≥ Number.power 2 64 then
    { s with full := true, exponent := s.exponent + dropped }
  else { s with value := next, exponent := s.exponent + shift }

/-- Multiplies by a power of ten; powers beyond `10 ^ 308` are split, and an infinite result is
none. The fuel bounds the number of parts. -/
def scaleByTens : (fuel : Nat) → Float → Int → Option Float
  | 0, _, _ => some 0.0
  | fuel + 1, x, exponent =>
    if exponent.natAbs ≤ 308 then
      let power := Float.ofScientific 1 false exponent.natAbs
      let y := if exponent ≥ 0 then x * power else x / power
      if exponent ≥ 0 && y.isInf then none else some y
    else if x == 0.0 then some x
    else if exponent ≥ 0 then none
    else scaleByTens fuel (x / 1.0e308) (exponent + 308)

def composeFloat (minus : Bool) (value : Nat) (exponent : Int) : Option Float :=
  (scaleByTens 5 (Float.ofScientific value false 0) exponent).map fun x => if minus then -x else x

def exponentBound : Nat := 2147483647

/-- Applies a written exponent. One beyond the bound leaves zero, unless it is positive and the
significand is not zero: such a numeral is out of range. -/
def Significand.close (minus : Bool) (s : Significand) (exponentMinus : Bool) (exponent : Nat) :
    Option Float :=
  if exponent > exponentBound then
    if s.value ≠ 0 && !exponentMinus then none else some (if minus then -0.0 else 0.0)
  else
    let shift : Int := if exponentMinus then -(exponent : Int) else exponent
    composeFloat minus s.value (s.exponent + shift)

def readExponent (minus : Bool) (s : Significand) (r : List Char) : Option (Float × List Char) :=
  let (exponentMinus, r) := Number.takeSign r
  let digits := r.takeWhile Char.isDigit
  if digits.isEmpty then none
  else (s.close minus exponentMinus (Number.digitsValue digits)).map (·, r.dropWhile Char.isDigit)

def readTail (minus : Bool) (s : Significand) : List Char → Option (Float × List Char)
  | '.' :: r =>
    let digits := r.takeWhile Char.isDigit
    let r := r.dropWhile Char.isDigit
    if digits.isEmpty then none
    else
      let s := digits.foldl (Significand.take (-1) 0) { s with full := false }
      match r with
      | 'e' :: r | 'E' :: r => readExponent minus s r
      | r => (s.close minus false 0).map (·, r)
  | 'e' :: r => readExponent minus s r
  | 'E' :: r => readExponent minus s r
  | r => (s.close minus false 0).map (·, r)

/-- Whether what follows the digits makes the numeral a double. -/
def startsTail : List Char → Bool
  | c :: _ => c == '.' || c == 'e' || c == 'E'
  | [] => false

/-- Reads a numeral at the start of a text. Minus zero is a double, and so is a whole number that
64 bits do not hold. -/
def readNumeral (text : List Char) : Option (Number × List Char) :=
  let (minus, text) :=
    match text with
    | '-' :: r => (true, r)
    | r => (false, r)
  let digits := text.takeWhile Char.isDigit
  let rest := text.dropWhile Char.isDigit
  if digits.isEmpty || (digits.length > 1 && digits.head? == some '0') then none
  else
    let s := digits.foldl (Significand.take 0 1) ⟨0, 0, false⟩
    if startsTail rest || s.full then
      (readTail minus s rest).map fun (x, r) => (.float x, r)
    else if minus then
      if s.value = 0 || s.value > Number.power 2 63 then
        some (.float (-(Float.ofScientific s.value false 0)), rest)
      else some (.int (-(s.value : Int)), rest)
    else some (.int s.value, rest)

end Workflow.Json
