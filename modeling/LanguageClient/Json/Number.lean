import LanguageClient.Json.Basic
import LanguageClient.Number.Digits

/-!
# JSON number literals

A literal without fraction and power of ten that fits 64 bits is an integer; any
other literal is a floating-point number.  Its significand is made of the first
digits that fit 64 bits, and a single power of ten scales it, each step rounding
to the nearest number.
-/

set_option autoImplicit false

namespace LanguageClient.Json

open LanguageClient.Number

/-- A number literal split at its signs and marks. -/
structure Literal where
  negative : Bool
  whole : List Char
  fraction : Option (List Char)
  power : Option (Bool × List Char)
  deriving DecidableEq, Repr

/-- Digits of a whole part: a zero stands alone. -/
def wholeDigits : List Char → Bool
  | [] => false
  | ['0'] => true
  | '0' :: _ => false
  | ds => ds.all isDigit

/-- A fraction after the digits of the whole part. -/
def splitFraction : List Char → Option (List Char) × List Char
  | '.' :: rest => (some (rest.takeWhile isDigit), rest.dropWhile isDigit)
  | rest => (none, rest)

/-- A power of ten at the end of a literal; nothing when the end is malformed. -/
def splitPower : List Char → Option (Option (Bool × List Char))
  | [] => some none
  | e :: rest =>
    if e = 'e' ∨ e = 'E' then
      let (negative, digits) := match rest with
        | '-' :: ds => (true, ds)
        | '+' :: ds => (false, ds)
        | ds => (false, ds)
      if digits.isEmpty || !digits.all isDigit then none else some (some (negative, digits))
    else none

/-- Splits a literal, refusing what is not one. -/
def Literal.split? (cs : List Char) : Option Literal :=
  let (negative, cs) := match cs with
    | '-' :: rest => (true, rest)
    | rest => (false, rest)
  let whole := cs.takeWhile isDigit
  let (fraction, rest) := splitFraction (cs.dropWhile isDigit)
  if wholeDigits whole && fraction != some [] then
    (splitPower rest).map fun power => ⟨negative, whole, fraction, power⟩
  else none

/-- The bound of significands. -/
def significandBound : Nat := 0x10000000000000000

/-- Takes digits into a significand as long as it stays below the bound: the new
significand and the digits left over. -/
def takeDigits (significand : Nat) : List Char → Nat × List Char
  | [] => (significand, [])
  | d :: rest =>
    let next := significand * 10 + (d.toNat - 48)
    if next < significandBound then takeDigits next rest else (significand, d :: rest)

/-- The greatest power of ten that is used in one step. -/
def powerStep : Nat := 308

/-- Divides by a power of ten, in steps no larger than `powerStep`; three steps
take every significand below the bound to zero. -/
def scaleDown (x : Binary64) (power : Nat) : Nat → Option Binary64
  | 0 => some (.zero x.negative)
  | fuel + 1 =>
    if power ≤ powerStep then (Binary64.ofRatio? false (Nat.pow 10 power) 1).bind x.div?
    else if x.isZero then some x
    else do
      let y ← (Binary64.ofRatio? false (Nat.pow 10 powerStep) 1).bind x.div?
      scaleDown y (power - powerStep) fuel

/-- The significand scaled by a power of ten, unless that is too large. -/
def scale? (negative : Bool) (significand : Nat) (power : Int) : Option Binary64 := do
  let x ← Binary64.ofRatio? negative significand 1
  if x.isZero then return x
  match power with
  | .ofNat p =>
    if p ≤ powerStep then (Binary64.ofRatio? false (Nat.pow 10 p) 1).bind x.mul? else none
  | .negSucc p => scaleDown x (p + 1) 4

/-- The power of ten that a literal states. -/
def Literal.powerValue (l : Literal) : Int :=
  match l.power with
  | none => 0
  | some (false, ds) => natOfDigits ds
  | some (true, ds) => -(natOfDigits ds : Int)

/-- The literal as a floating-point number, unless it is too large. -/
def Literal.float? (l : Literal) : Option Binary64 :=
  let (s, dropped) := takeDigits 0 l.whole
  let fraction := l.fraction.getD []
  let (s, left) := takeDigits s fraction
  scale? l.negative s (dropped.length - (fraction.length - left.length : Nat) + l.powerValue)

/-- The value of a literal, unless it is too large. -/
def Literal.value? (l : Literal) : Option Json :=
  let n := natOfDigits l.whole
  if l.fraction.isNone && l.power.isNone then
    if l.negative then
      if n ≠ 0 ∧ n ≤ 0x8000000000000000 then some (.int (-(n : Int))) else l.float?.map .float
    else if n < 0x10000000000000000 then some (.int n)
    else l.float?.map .float
  else l.float?.map .float

/-- The number that a text is, refusing malformed and too large ones. -/
def number? (cs : List Char) : Option Json :=
  (Literal.split? cs).bind Literal.value?

end LanguageClient.Json
