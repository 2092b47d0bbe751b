import LanguageClient.Number.Binary64

/-!
# Shortest decimal digits

The fewest decimal digits that read back as a given binary number.  The decimal
grids of one, two, … seventeen digits are tried in turn; on each the two
neighbours of the number are tested in exact arithmetic, the first grid with a
hit wins, and of two hits the nearer is taken.
-/

set_option autoImplicit false

namespace LanguageClient.Number

/-- The positive number `digits · 10 ^ exponent`. -/
structure Decimal where
  digits : Nat
  exponent : Int
  deriving DecidableEq, Repr

/-- The same number without a trailing zero among its digits. -/
def Decimal.strip (digits : Nat) (exponent : Int) : Decimal :=
  if h : digits ≠ 0 ∧ digits % 10 = 0 then strip (digits / 10) (exponent + 1)
  else ⟨digits, exponent⟩
  termination_by digits
  decreasing_by omega

namespace Shortest

/-- How many decimal digits a number has; zero has none. -/
def digitCount : Nat → Nat
  | 0 => 0
  | n + 1 => digitCount ((n + 1) / 10) + 1
  decreasing_by omega

/-- The least `j ≤ fuel` with `den ≤ num · 10 ^ j`, counted on from `j`. -/
def leadingZeros (num den : Nat) : Nat → Nat → Nat
  | 0, j => j
  | fuel + 1, j => if den ≤ num then j else leadingZeros (num * 10) den fuel (j + 1)

/-- The greatest `e` with `10 ^ e ≤ num / den`. -/
def log10Ratio (num den : Nat) : Int :=
  if den ≤ num then (digitCount (num / den) : Int) - 1
  else -(leadingZeros num den (digitCount den) 0 : Int)

/-- The reals that round to a number, on a scale of quarter units of its last place. -/
structure Interval where
  low : Nat
  value : Nat
  high : Nat
  /-- Whether the two ends belong to it. -/
  closed : Bool

/-- The reals that round to `x`: half a unit to each side, and below a power of
two half of the smaller unit there. -/
def interval (x : Binary64) : Interval :=
  let m := x.significand
  let low := if m = 0x10000000000000 ∧ Binary64.minExponent < x.exponent then 4 * m - 1 else 4 * m - 2
  ⟨low, 4 * m, 4 * m + 2, m % 2 = 0⟩

/-- Whether `d` grid units of `unit` lie in the interval scaled by `scale`. -/
def Interval.contains (i : Interval) (scale unit d : Nat) : Bool :=
  if i.closed then i.low * scale ≤ d * unit && d * unit ≤ i.high * scale
  else i.low * scale < d * unit && d * unit < i.high * scale

/-- The hit on the grid of `count` digits, if there is one. -/
def onGrid? (x : Binary64) (log10 : Int) (count : Nat) : Option Decimal :=
  let i := interval x
  let k : Int := log10 + 1 - count
  let q : Int := x.exponent - 2
  let scale := Binary64.twoNum q * Nat.pow 10 (-k).toNat
  let unit := Binary64.twoDen q * Nat.pow 10 k.toNat
  let d := i.value * scale / unit
  match i.contains scale unit d, i.contains scale unit (d + 1) with
  | true, false => some ⟨d, k⟩
  | false, true => some ⟨d + 1, k⟩
  | false, false => none
  | true, true =>
    let below := i.value * scale - d * unit
    let above := (d + 1) * unit - i.value * scale
    if below < above then some ⟨d, k⟩
    else if above < below then some ⟨d + 1, k⟩
    else if d % 2 = 0 then some ⟨d, k⟩ else some ⟨d + 1, k⟩

end Shortest

/-- The fewest digits that read back as `x`, which is not zero. -/
def shortest (x : Binary64) : Decimal :=
  let log10 := Shortest.log10Ratio x.num x.den
  let found := (((List.range 17).map (· + 1)).findSome? (Shortest.onGrid? x log10)).getD
    ⟨x.num / x.den, 0⟩
  Decimal.strip found.digits found.exponent

end LanguageClient.Number
