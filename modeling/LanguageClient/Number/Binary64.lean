/-!
# Binary floating-point numbers

Finite numbers of the 64-bit binary format as a sign, a whole significand and a
power of two, with exact rounding of ratios to the nearest number (ties go to
the even significand).  Every operation is a computation on natural numbers.
-/

set_option autoImplicit false

namespace LanguageClient.Number

/-- The number `± significand · 2 ^ exponent`.

The significand is below `2 ^ 53`, the exponent at least `-1074`, and only the
least exponent goes with a significand below `2 ^ 52`. -/
structure Binary64 where
  negative : Bool
  significand : Nat
  exponent : Int
  deriving DecidableEq, Repr, Inhabited

namespace Binary64

/-- The least exponent. -/
def minExponent : Int := -1074

/-- The greatest exponent. -/
def maxExponent : Int := 971

/-- Zero of either sign. -/
def zero (negative : Bool) : Binary64 := ⟨negative, 0, minExponent⟩

/-- Whether the number is a zero. -/
def isZero (x : Binary64) : Bool := x.significand == 0

/-- `2 ^ e` for a whole `e` is this numerator over `twoDen e`. -/
def twoNum (e : Int) : Nat := Nat.pow 2 e.toNat

/-- See `twoNum`. -/
def twoDen (e : Int) : Nat := Nat.pow 2 (-e).toNat

/-- The nearest whole number to `num / den`; a tie goes to the even one. -/
def roundDiv (num den : Nat) : Nat :=
  let q := num / den
  let r := num % den
  if 2 * r < den then q
  else if den < 2 * r then q + 1
  else if q % 2 = 0 then q else q + 1

/-- The greatest `e` with `2 ^ e ≤ num / den`, for positive operands. -/
def log2Ratio (num den : Nat) : Int :=
  let e : Int := (Nat.log2 num : Int) - (Nat.log2 den : Int)
  if den * twoNum e ≤ num * twoDen e then e else e - 1

/-- The number nearest to `± num / den`, unless that is too large. -/
def ofRatio? (negative : Bool) (num den : Nat) : Option Binary64 :=
  if num = 0 then some (zero negative)
  else
    let e := max minExponent (log2Ratio num den - 52)
    let m := roundDiv (num * twoDen e) (den * twoNum e)
    let (m, e) := if m = 0x20000000000000 then (0x10000000000000, e + 1) else (m, e)
    if maxExponent < e then none else some ⟨negative, m, e⟩

/-- The numerator of the absolute value. -/
def num (x : Binary64) : Nat := x.significand * twoNum x.exponent

/-- The denominator of the absolute value. -/
def den (x : Binary64) : Nat := twoDen x.exponent

/-- The product, rounded, unless it is too large. -/
def mul? (x y : Binary64) : Option Binary64 :=
  ofRatio? (x.negative != y.negative) (x.num * y.num) (x.den * y.den)

/-- The quotient, rounded, unless it is too large or the divisor is zero. -/
def div? (x y : Binary64) : Option Binary64 :=
  if y.significand = 0 then none
  else ofRatio? (x.negative != y.negative) (x.num * y.den) (x.den * y.num)

/-- The number nearest to `± digits · 10 ^ exponent`, unless that is too large. -/
def ofDecimal? (negative : Bool) (digits : Nat) (exponent : Int) : Option Binary64 :=
  ofRatio? negative (digits * Nat.pow 10 exponent.toNat) (Nat.pow 10 (-exponent).toNat)

end Binary64

end LanguageClient.Number
