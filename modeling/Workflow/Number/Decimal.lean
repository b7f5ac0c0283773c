namespace Workflow.Number

def power (base exponent : Nat) : Nat :=
  Nat.pow base exponent

def digitsValue (digits : List Char) : Nat :=
  digits.foldl (fun n c => n * 10 + (c.toNat - 48)) 0

def digitValue? (c : Char) : Option Nat :=
  if '0' ≤ c ∧ c ≤ '9' then some (c.toNat - 48)
  else if 'a' ≤ c ∧ c ≤ 'f' then some (c.toNat - 87)
  else if 'A' ≤ c ∧ c ≤ 'F' then some (c.toNat - 55)
  else none

/-- Reads a non-empty run of digits of `base`; `none` if any character is no such digit. -/
def readNat? (base : Nat) (digits : List Char) : Option Nat :=
  if digits.isEmpty then none
  else
    digits.foldlM (fun n c =>
      (digitValue? c).bind fun d => if d < base then some (n * base + d) else none) 0

def takeSign : List Char → Bool × List Char
  | '-' :: r => (true, r)
  | '+' :: r => (false, r)
  | s => (false, s)

structure Decimal where
  digits : Nat
  exponent : Int
deriving DecidableEq, Repr

def readExponent? : List Char → Option Int
  | [] => some 0
  | c :: r =>
    if c = 'e' || c = 'E' then
      let (minus, digits) := takeSign r
      (readNat? 10 digits).map fun n => if minus then -(n : Int) else n
    else none

/-- Reads an unsigned numeral: digits with at most one point among them, at least one digit, and
an exponent that may be missing. -/
def Decimal.read? (s : List Char) : Option Decimal :=
  let whole := s.takeWhile Char.isDigit
  let afterWhole := s.dropWhile Char.isDigit
  let (fraction, rest) :=
    match afterWhole with
    | '.' :: r => (r.takeWhile Char.isDigit, r.dropWhile Char.isDigit)
    | r => ([], r)
  if whole.isEmpty && fraction.isEmpty then none
  else (readExponent? rest).map fun e => ⟨digitsValue (whole ++ fraction), e - fraction.length⟩

/-- The number of decimal digits of `n`; zero has one. -/
def countDigits (n : Nat) : Nat :=
  (Nat.toDigits 10 n).length

/-- The double nearest to a decimal number, ties to even. Numbers beyond the range on either side
are settled by the position of their first digit, so that no power is formed for them. -/
def Decimal.toFloat (d : Decimal) : Float :=
  let position : Int := countDigits d.digits + d.exponent
  if d.digits = 0 || position < -400 then 0.0
  else if position > 400 then 1.0 / 0.0
  else
    match d.exponent with
    | .ofNat e => Float.ofScientific d.digits false e
    | .negSucc e => Float.ofScientific d.digits true (e + 1)

def readNumeral? (s : List Char) : Option Float :=
  let (minus, digits) := takeSign s
  (Decimal.read? digits).map fun d => if minus then -d.toFloat else d.toFloat

/-- Reads a signed numeral or, letters in any case, one of the names `inf`, `infinity` and `nan`. -/
def readFloat? (s : List Char) : Option Float :=
  let (minus, body) := takeSign s
  let name := String.ofList (body.map Char.toLower)
  if name = "inf" || name = "infinity" then some (if minus then -1.0 / 0.0 else 1.0 / 0.0)
  else if name = "nan" then some (0.0 / 0.0)
  else readNumeral? s

end Workflow.Number
