import LanguageClient.Number.Digits

/-!
# Dates and times

A moment is a calendar date, a time of day, or both, then possibly with an offset
from universal time.  Reading checks the ranges; the text of a moment is the same
for every way of writing it.
-/

set_option autoImplicit false

namespace LanguageClient.Toml

open Number (padded)

/-- A day of the calendar. -/
structure Date where
  year : Nat
  month : Nat
  day : Nat
  deriving DecidableEq, Repr

/-- A time of day. -/
structure Time where
  hour : Nat
  minute : Nat
  second : Nat
  nanosecond : Nat
  deriving DecidableEq, Repr

/-- An offset from universal time. -/
inductive Offset where
  | universal
  | minutes (m : Int)
  deriving DecidableEq, Repr

/-- A moment; at least one of date and time is there. -/
structure Datetime where
  date : Option Date
  time : Option Time
  offset : Option Offset
  deriving DecidableEq, Repr

/-- The text of a date. -/
def Date.text (d : Date) : List Char :=
  padded 4 d.year ++ '-' :: padded 2 d.month ++ '-' :: padded 2 d.day

/-- The text of a time; zeros at the end of a fraction are left out. -/
def Time.text (t : Time) : List Char :=
  let fraction := ((padded 9 t.nanosecond).reverse.dropWhile (· = '0')).reverse
  padded 2 t.hour ++ ':' :: padded 2 t.minute ++ ':' :: padded 2 t.second ++
    (if fraction.isEmpty then [] else '.' :: fraction)

/-- The text of an offset. -/
def Offset.text : Offset → List Char
  | .universal => ['Z']
  | .minutes m =>
    (if m < 0 then '-' else '+') :: padded 2 (m.natAbs / 60) ++ ':' :: padded 2 (m.natAbs % 60)

/-- The text of a moment. -/
def Datetime.text (d : Datetime) : List Char :=
  d.date.elim [] Date.text ++ (if d.date.isSome && d.time.isSome then ['T'] else []) ++
    d.time.elim [] Time.text ++ d.offset.elim [] Offset.text

/-- Whether a year has a leap day. -/
def isLeapYear (year : Nat) : Bool :=
  year % 4 = 0 && (year % 100 ≠ 0 || year % 400 = 0)

/-- How many days a month has. -/
def daysInMonth (year month : Nat) : Nat :=
  if month = 2 then (if isLeapYear year then 29 else 28)
  else if month ∈ [4, 6, 9, 11] then 30
  else 31

/-- A number of exactly `count` digits in front of a text. -/
def fixedDigits? (count : Nat) (cs : List Char) : Option (Nat × List Char) :=
  let digits := cs.take count
  if digits.length = count ∧ digits.all Number.isDigit then
    some (Number.natOfDigits digits, cs.drop count)
  else none

/-- The text after a character that has to come first. -/
def expect? (c : Char) : List Char → Option (List Char)
  | d :: rest => if d = c then some rest else none
  | [] => none

/-- A date in front of a text. -/
def date? (cs : List Char) : Option (Date × List Char) := do
  let (year, cs) ← fixedDigits? 4 cs
  let (month, cs) ← fixedDigits? 2 (← expect? '-' cs)
  let (day, cs) ← fixedDigits? 2 (← expect? '-' cs)
  if 1 ≤ month ∧ month ≤ 12 ∧ 1 ≤ day ∧ day ≤ daysInMonth year month then
    some (⟨year, month, day⟩, cs)
  else none

/-- The nanoseconds that the digits of a fraction are; digits past the ninth are
dropped. -/
def nanoseconds (digits : List Char) : Nat :=
  let kept := digits.take 9
  Number.natOfDigits kept * Nat.pow 10 (9 - kept.length)

/-- A fraction in front of a text, which may be left out. -/
def fraction? : List Char → Option (Nat × List Char)
  | '.' :: cs =>
    let digits := cs.takeWhile Number.isDigit
    if digits.isEmpty then none else some (nanoseconds digits, cs.dropWhile Number.isDigit)
  | cs => some (0, cs)

/-- A time in front of a text; a minute may have a leap second. -/
def time? (cs : List Char) : Option (Time × List Char) := do
  let (hour, cs) ← fixedDigits? 2 cs
  let (minute, cs) ← fixedDigits? 2 (← expect? ':' cs)
  let (second, cs) ← fixedDigits? 2 (← expect? ':' cs)
  let (nanosecond, cs) ← fraction? cs
  if hour ≤ 23 ∧ minute ≤ 59 ∧ second ≤ 60 then
    some (⟨hour, minute, second, nanosecond⟩, cs)
  else none

/-- A signed offset of hours and minutes in front of a text. -/
def numericOffset? (sign : Int) (cs : List Char) : Option (Offset × List Char) := do
  let (hour, cs) ← fixedDigits? 2 cs
  let (minute, cs) ← fixedDigits? 2 (← expect? ':' cs)
  if hour ≤ 23 ∧ minute ≤ 59 then
    some (.minutes (sign * (Int.ofNat (hour * 60 + minute))), cs)
  else none

/-- An offset in front of a text, which may be left out. -/
def offset? : List Char → Option (Option Offset × List Char)
  | 'Z' :: cs | 'z' :: cs => some (some .universal, cs)
  | '+' :: cs => (numericOffset? 1 cs).map fun (o, cs) => (some o, cs)
  | '-' :: cs => (numericOffset? (-1) cs).map fun (o, cs) => (some o, cs)
  | cs => some (none, cs)

/-- Whether the character may stand between a date and a time. -/
def isTimeMark (c : Char) : Bool := c = 'T' || c = 't' || c = ' '

/-- A moment in front of a text. -/
def datetime? (cs : List Char) : Option (Datetime × List Char) :=
  match date? cs with
  | some (date, rest) =>
    match rest with
    | mark :: after =>
      if isTimeMark mark then
        match time? after with
        | some (time, after) =>
          (offset? after).map fun (offset, after) => (⟨some date, some time, offset⟩, after)
        | none => some (⟨some date, none, none⟩, rest)
      else some (⟨some date, none, none⟩, rest)
    | [] => some (⟨some date, none, none⟩, rest)
  | none => (time? cs).map fun (time, rest) => (⟨none, some time, none⟩, rest)

end LanguageClient.Toml
