/-!
# Double precision numbers

Finite binary floating point numbers of double precision as sign, significand and exponent, with
multiplication and division rounded to nearest, ties to even, in exact integer arithmetic.

`Binary64.shortest` finds the fewest decimal digits that read back as the same number, and among
those the digits nearest to it.
-/

namespace InteractionBinding

/-- The number `± significand * 2 ^ exponent`. Every number that the operations of this file
build has its significand in `[2 ^ 52, 2 ^ 53)`, or below that at the least exponent `-1074`. -/
structure Binary64 where
  negative : Bool
  significand : Nat
  exponent : Int
deriving DecidableEq, Repr

namespace Binary64

def leastExponent : Int := -1074

def greatestExponent : Int := 971

/-- A non-negative rational number as numerator and denominator. -/
structure Ratio where
  numerator : Nat
  denominator : Nat

/-- The ratio `significand * 2 ^ exponent`. -/
def Ratio.ofBinary (significand : Nat) (exponent : Int) : Ratio :=
  match exponent with
  | .ofNat e => ⟨significand * Nat.pow 2 e, 1⟩
  | .negSucc e => ⟨significand, Nat.pow 2 (e + 1)⟩

/-- The quotient rounded to the nearest integer, a half to the even one. -/
def divideToEven (numerator denominator : Nat) : Nat :=
  let quotient := numerator / denominator
  let twice := 2 * (numerator % denominator)
  if twice < denominator then quotient
  else if twice = denominator then quotient + quotient % 2
  else quotient + 1

/-- `divideToEven` of a ratio by `2 ^ exponent`. -/
def Ratio.unitsToEven (r : Ratio) (exponent : Int) : Nat :=
  match exponent with
  | .ofNat e => divideToEven r.numerator (r.denominator * Nat.pow 2 e)
  | .negSucc e => divideToEven (r.numerator * Nat.pow 2 (e + 1)) r.denominator

/-- The exponent at which the integer part of a positive ratio has 53 binary digits, but no less
than the least one. -/
def Ratio.binaryExponent (r : Ratio) : Int :=
  let guess : Int := (r.numerator.log2 : Int) - r.denominator.log2 - 52
  let reaches := match guess with
    | .ofNat e => decide (Nat.pow 2 52 * (r.denominator * Nat.pow 2 e) ≤ r.numerator)
    | .negSucc e => decide (Nat.pow 2 52 * r.denominator ≤ r.numerator * Nat.pow 2 (e + 1))
  max leastExponent (if reaches then guess else guess - 1)

/-- The number nearest to a ratio, with the given sign; none when the ratio is beyond the greatest
number. -/
def round? (negative : Bool) (r : Ratio) : Option Binary64 :=
  if r.numerator = 0 then some ⟨negative, 0, leastExponent⟩
  else
    let exponent := r.binaryExponent
    let units := r.unitsToEven exponent
    let (units, exponent) :=
      if units = Nat.pow 2 53 then (Nat.pow 2 52, exponent + 1) else (units, exponent)
    if exponent ≤ greatestExponent then some ⟨negative, units, exponent⟩ else none

/-- The magnitude as an exact ratio. -/
def ratio (x : Binary64) : Ratio := .ofBinary x.significand x.exponent

def isZero (x : Binary64) : Bool := x.significand = 0

/-- The product rounded to nearest; none when it is too large. -/
def mul? (x y : Binary64) : Option Binary64 :=
  let (a, b) := (x.ratio, y.ratio)
  round? (x.negative != y.negative)
    ⟨a.numerator * b.numerator, a.denominator * b.denominator⟩

/-- The quotient rounded to nearest; none when it is too large. -/
def div? (x y : Binary64) : Option Binary64 :=
  let (a, b) := (x.ratio, y.ratio)
  round? (x.negative != y.negative)
    ⟨a.numerator * b.denominator, a.denominator * b.numerator⟩

def ofNat? (n : Nat) : Option Binary64 := round? false ⟨n, 1⟩

/-! ### Decimal digits -/

/-- The number `coefficient * 10 ^ exponent`. -/
structure Decimal where
  coefficient : Nat
  exponent : Int
deriving DecidableEq, Repr

/-- Moves the zeros at the end of the coefficient into the exponent; `fuel` bounds their number. -/
def Decimal.strip (fuel : Nat) (d : Decimal) : Decimal :=
  match fuel with
  | 0 => d
  | fuel + 1 =>
    if d.coefficient ≠ 0 ∧ d.coefficient % 10 = 0 then
      Decimal.strip fuel ⟨d.coefficient / 10, d.exponent + 1⟩
    else d

/-- A ratio in units of `10 ^ exponent`. -/
def Ratio.inUnits (r : Ratio) (exponent : Int) : Ratio :=
  match exponent with
  | .ofNat e => ⟨r.numerator, r.denominator * Nat.pow 10 e⟩
  | .negSucc e => ⟨r.numerator * Nat.pow 10 (e + 1), r.denominator⟩

/-- The exponent of the first decimal digit of a positive number of double precision. All of them
are above `10 ^ -400`. -/
def Ratio.decimalExponent (r : Ratio) : Int :=
  ((Nat.toDigits 10 (r.numerator * Nat.pow 10 400 / r.denominator)).length : Int) - 401

/-- The positive ratios that round to a number: bounds in quarters of a unit of the significand,
and whether the bounds belong to it. -/
structure RoundingRange where
  low : Ratio
  high : Ratio
  closed : Bool

/-- The range of a number. Below a power of two the next number is half as far away as above it. -/
def roundingRange (x : Binary64) : RoundingRange :=
  let quarter := x.exponent - 2
  let below := if x.significand = Nat.pow 2 52 ∧ leastExponent < x.exponent then 1 else 2
  { low := .ofBinary (4 * x.significand - below) quarter
    high := .ofBinary (4 * x.significand + 2) quarter
    closed := x.significand % 2 = 0 }

/-- Whether an integer, in the unit of the three ratios, lies in the range. -/
def RoundingRange.contains (range : RoundingRange) (n : Nat) : Bool :=
  let aboveLow := range.low.numerator < n * range.low.denominator
  let atLow := range.low.numerator = n * range.low.denominator
  let belowHigh := n * range.high.denominator < range.high.numerator
  let atHigh := n * range.high.denominator = range.high.numerator
  (aboveLow || (range.closed && atLow)) && (belowHigh || (range.closed && atHigh))

/-- The point of the grid of multiples of `10 ^ exponent` that is nearest to the number among those
that read back as the number, if there is one. A tie goes to the even multiple. -/
def gridPoint? (x : Binary64) (exponent : Int) : Option Decimal :=
  let value := x.ratio.inUnits exponent
  let range := x.roundingRange
  let range : RoundingRange :=
    { range with low := range.low.inUnits exponent, high := range.high.inUnits exponent }
  let floor := value.numerator / value.denominator
  let twice := 2 * (value.numerator % value.denominator)
  let floorNearer :=
    twice < value.denominator || (twice = value.denominator && floor % 2 = 0)
  match range.contains floor, range.contains (floor + 1) with
  | true, true => some ⟨if floorNearer then floor else floor + 1, exponent⟩
  | true, false => some ⟨floor, exponent⟩
  | false, true => some ⟨floor + 1, exponent⟩
  | false, false => none

/-- The fewest decimal digits that read back as the magnitude of the number, and among those the
nearest ones. Seventeen digits always suffice. -/
def shortest (x : Binary64) : Decimal :=
  if x.isZero then ⟨0, 0⟩
  else
    let first := x.ratio.decimalExponent
    match (List.range 17).findSome? fun (places : Nat) => x.gridPoint? (first - (places : Int)) with
    | some d => d.strip 17
    | none => ⟨x.significand, 0⟩

end Binary64

end InteractionBinding
