import Workflow.Number.Decimal
/-!
The shortest decimal that reads back as a given double. The doubles near `x` leave an interval of
numbers that round to `x`; on the grids of one, two, … seventeen digits the first that has a point
in this interval gives the digits, and of two points the nearer one is taken.
-/

namespace Workflow.Number

structure Binary where
  significand : Nat
  exponent : Int
  /-- The double just below is only half as far away as the one just above. -/
  narrowBelow : Bool
deriving DecidableEq, Repr

/-- Takes the size of a finite double apart; `none` for zero. -/
def Binary.ofFloat? (x : Float) : Option Binary :=
  let bits : Nat := x.toBits.toNat % power 2 63
  let raw : Nat := bits / power 2 52
  let fraction : Nat := bits % power 2 52
  if raw = 0 then
    if fraction = 0 then none else some ⟨fraction, -1074, false⟩
  else some ⟨power 2 52 + fraction, (raw : Int) - 1075, fraction = 0 && raw > 1⟩

/-- The numbers that round to a double, as fractions over one denominator. -/
structure Rounding where
  low : Nat
  value : Nat
  high : Nat
  denominator : Nat
  /-- Whether the two ends belong to the interval. -/
  closed : Bool

/-- The interval around `b`: half the way to each neighbour, with the ends iff the significand is
even. -/
def Binary.rounding (b : Binary) : Rounding :=
  let scale := power 2 (b.exponent - 2).toNat
  { low := (4 * b.significand - if b.narrowBelow then 1 else 2) * scale
    value := 4 * b.significand * scale
    high := (4 * b.significand + 2) * scale
    denominator := power 2 (2 - b.exponent).toNat
    closed := b.significand % 2 = 0 }

def Rounding.inUnitsOf (r : Rounding) (k : Int) : Rounding :=
  let up := power 10 (-k).toNat
  { r with
    low := r.low * up, value := r.value * up, high := r.high * up
    denominator := r.denominator * power 10 k.toNat }

def Rounding.admits (r : Rounding) (d : Nat) : Bool :=
  let n := d * r.denominator
  if r.closed then r.low ≤ n && n ≤ r.high else r.low < n && n < r.high

/-- Which of two equally near decimals is taken. -/
inductive Tie
  | toEven
  | up
deriving DecidableEq, Repr

def Rounding.nearest? (r : Rounding) (tie : Tie) : Option Nat :=
  let below := r.value / r.denominator
  let beyond := r.value % r.denominator * 2
  match r.admits below, r.admits (below + 1) with
  | false, false => none
  | true, false => some below
  | false, true => some (below + 1)
  | true, true =>
    if beyond < r.denominator then some below
    else if beyond > r.denominator then some (below + 1)
    else if tie = .toEven && below % 2 = 0 then some below else some (below + 1)

/-- Position of the decimal point: the value is at least `10 ^ (p - 1)` and below `10 ^ p`. -/
def Rounding.position (r : Rounding) : Int :=
  (countDigits (r.value * power 10 400 / r.denominator) : Int) - 400

/-- Tries the grids from `digits` digits on. -/
def Rounding.search (r : Rounding) (tie : Tie) (position : Int) : (tries digits : Nat) → Decimal
  | 0, _ => ⟨0, 0⟩
  | tries + 1, digits =>
    let k := position - digits
    match (r.inUnitsOf k).nearest? tie with
    | some d => ⟨d, k⟩
    | none => r.search tie position tries (digits + 1)

def Decimal.trimZeros : (fuel : Nat) → Decimal → Decimal
  | 0, d => d
  | fuel + 1, d =>
    if d.digits ≠ 0 && d.digits % 10 = 0 then Decimal.trimZeros fuel ⟨d.digits / 10, d.exponent + 1⟩
    else d

/-- The shortest decimal that reads back as `b`. -/
def Binary.shortest (b : Binary) (tie : Tie) : Decimal :=
  let r := b.rounding
  (r.search tie r.position 18 1).trimZeros 20

end Workflow.Number
