import InteractionBinding.Binary64
/-!
# JSON numbers

A number is an integer when it is written without fraction and exponent and fits 64 bits, with or
without sign; every other number is a double. An integer keeps its value, a double is reached by
scaling the leading digits that fit 64 bits with a power of ten.

Doubles are written with the fewest digits that read back: positionally when the point falls
at most sixteen places after the first digit or at most four zeros stand between it and the first
digit, and with a signed exponent otherwise.
-/

namespace InteractionBinding

namespace Json

/-- A JSON number. -/
inductive Number where
  | integer (value : Int)
  | double (value : Binary64)
deriving DecidableEq, Repr

/-- The parts of a written number: sign, integer digits, fraction digits if a point is written, and
sign and digits of the exponent if one is written. -/
structure NumberText where
  negative : Bool
  integer : List Char
  fraction : Option (List Char)
  exponent : Option (Bool × List Char)
deriving DecidableEq, Repr

namespace NumberText

/-- The digits at the start of a text, if there are any, and the text after them. -/
def digits? (cs : List Char) : Option (List Char × List Char) :=
  match cs.takeWhile Char.isDigit with
  | [] => none
  | digits => some (digits, cs.dropWhile Char.isDigit)

/-- The integer digits at the start of a text. A zero stands alone. -/
def integer? (cs : List Char) : Option (List Char × List Char) := do
  let (digits, rest) ← digits? cs
  if digits.head? = some '0' ∧ digits ≠ ['0'] then none else return (digits, rest)

/-- The fraction at the start of a text, if a point stands there. -/
def fraction? : List Char → Option (Option (List Char) × List Char)
  | '.' :: rest => (digits? rest).map fun (digits, rest) => (some digits, rest)
  | cs => some (none, cs)

/-- The sign, if one is written, of an exponent: whether it is negative. -/
def exponentSign : List Char → Bool × List Char
  | '-' :: rest => (true, rest)
  | '+' :: rest => (false, rest)
  | cs => (false, cs)

/-- The exponent at the start of a text, if a letter for it stands there. -/
def exponent? : List Char → Option (Option (Bool × List Char) × List Char)
  | 'e' :: rest | 'E' :: rest =>
    let (negative, rest) := exponentSign rest
    (digits? rest).map fun (digits, rest) => (some (negative, digits), rest)
  | cs => some (none, cs)

/-- Reads the number at the start of a text. -/
def read? (cs : List Char) : Option (NumberText × List Char) := do
  let (negative, cs) := match cs with
    | '-' :: rest => (true, rest)
    | other => (false, other)
  let (integer, cs) ← integer? cs
  let (fraction, cs) ← fraction? cs
  let (exponent, cs) ← exponent? cs
  return (⟨negative, integer, fraction, exponent⟩, cs)

/-! ### Values -/

def maxUnsigned : Nat := Nat.pow 2 64 - 1

def digitValue (digit : Char) : Nat := digit.toNat - '0'.toNat

/-- Appends digits to a significand as long as it fits 64 bits. Answers the significand and the
digits that were left. -/
def accumulate (significand : Nat) : List Char → Nat × List Char
  | [] => (significand, [])
  | digit :: rest =>
    let next := 10 * significand + digitValue digit
    if next ≤ maxUnsigned then accumulate next rest else (significand, digit :: rest)

/-- The power of ten as a double, for exponents up to 308. -/
def powerOfTen? (n : Nat) : Option Binary64 := Binary64.ofNat? (Nat.pow 10 n)

/-- Scales a double by a power of ten in steps of at most 308 places; none when the result is too
large. -/
def scale? (x : Binary64) (exponent : Int) : Option Binary64 :=
  if exponent.natAbs ≤ 308 then do
    let power ← powerOfTen? exponent.natAbs
    if 0 ≤ exponent then x.mul? power else x.div? power
  else if x.isZero then some x
  else if 0 ≤ exponent then none
  else do
    let power ← powerOfTen? 308
    scale? (← x.div? power) (exponent + 308)
termination_by exponent.natAbs
decreasing_by omega

/-- The largest exponent that is read digit by digit. -/
def maxExponent : Nat := Nat.pow 2 31 - 1

def naturalValue (digits : List Char) : Nat :=
  digits.foldl (fun value digit => 10 * value + digitValue digit) 0

/-- The double with the given significand, sign and written exponent, shifted by `places`. An
exponent beyond `maxExponent` gives zero, or is out of range. -/
def double? (negative : Bool) (significand : Nat) (places : Int)
    (exponent : Option (Bool × List Char)) : Option Binary64 := do
  let magnitude ← match exponent with
    | none => scale? (← Binary64.ofNat? significand) places
    | some (negativeExponent, digits) =>
      let written := naturalValue digits
      if written ≤ maxExponent then
        let total : Int := if negativeExponent then places - written else places + written
        let bounded := max (-(maxExponent : Int) - 1) (min maxExponent total)
        scale? (← Binary64.ofNat? significand) bounded
      else if significand ≠ 0 ∧ ¬ negativeExponent then none
      else Binary64.ofNat? 0
  return { magnitude with negative := negative }

/-- The value of a written number, none when it is beyond the range of doubles. Of the digits
before and after the point those count that fit 64 bits; after the first digit before the
point that does not fit, the others there only shift the point. -/
def value? (text : NumberText) : Option Number :=
  let (leading, dropped) := accumulate 0 text.integer
  match text.fraction, text.exponent, dropped with
  | none, none, [] =>
    if !text.negative then some (.integer leading)
    else if leading ≠ 0 ∧ leading ≤ Nat.pow 2 63 then some (.integer (-leading))
    else (double? true leading 0 none).map .double
  | fraction, exponent, dropped =>
    let decimals := fraction.getD []
    let (significand, ignored) := accumulate leading decimals
    let taken := decimals.length - ignored.length
    (double? text.negative significand (dropped.length - taken) exponent).map .double

end NumberText

/-! ### Written form -/

/-- How doubles are written. With `point` the place of the point after the first digit, the number
is written positionally for `leastPoint < point ≤ greatestPoint`. -/
structure DoubleStyle where
  leastPoint : Int
  greatestPoint : Int
  /-- What stands before an exponent that is not negative. -/
  plus : String

/-- At most four zeros after the point and at most sixteen digits before it; exponents always have a
sign. -/
def doubleStyle : DoubleStyle := ⟨-5, 16, "+"⟩

/-- Writes digits that stand at places up to that of `10 ^ exponent`. -/
def DoubleStyle.render (style : DoubleStyle) (d : Binary64.Decimal) : String :=
  let digits := Nat.toDigits 10 d.coefficient
  let point : Int := digits.length + d.exponent
  if 0 ≤ d.exponent ∧ point ≤ style.greatestPoint then
    String.ofList (digits ++ List.replicate d.exponent.toNat '0') ++ ".0"
  else if 0 < point ∧ point ≤ style.greatestPoint then
    String.ofList (digits.take point.toNat) ++ "." ++ String.ofList (digits.drop point.toNat)
  else if style.leastPoint < point ∧ point ≤ 0 then
    "0." ++ String.ofList (List.replicate (-point).toNat '0' ++ digits)
  else
    let mantissa := match digits with
      | [] => ""
      | [digit] => String.ofList [digit]
      | digit :: more => String.ofList (digit :: '.' :: more)
    mantissa ++ "e" ++ (if 0 < point then style.plus else "") ++ toString (point - 1)

/-- The written form of a double. -/
def renderDouble (x : Binary64) : String :=
  (if x.negative then "-" else "") ++ doubleStyle.render x.shortest

/-- The written form of a number. -/
def Number.render : Number → String
  | .integer value => toString value
  | .double value => renderDouble value

end Json

end InteractionBinding
