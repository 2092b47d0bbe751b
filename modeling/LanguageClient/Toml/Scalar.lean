import LanguageClient.Number.Binary64
import LanguageClient.Text.Blank
import LanguageClient.Toml.Value

/-!
# Scalars of a document

Strings, numbers and truth values as they are written.  Each reader takes a value
from the front of a text and returns the rest.
-/

set_option autoImplicit false

namespace LanguageClient.Toml

open Text (isGap)

/-- Whether the character may stand in a string or comment: no control but the tab. -/
def isText (c : Char) : Bool :=
  c = '\t' || (0x20 ≤ c.toNat && c.toNat ≠ 0x7F)

/-- A text without the gap in front. -/
def skipGap (cs : List Char) : List Char := cs.dropWhile isGap

/-- The text after a line break. -/
def lineBreak? : List Char → Option (List Char)
  | '\n' :: rest => some rest
  | '\r' :: '\n' :: rest => some rest
  | _ => none

/-- A text without the line break that it may begin with. -/
def skipLineBreak (cs : List Char) : List Char := (lineBreak? cs).getD cs

/-- A text without gaps and line breaks in front. -/
def skipBlankLines : List Char → List Char
  | '\r' :: '\n' :: rest => skipBlankLines rest
  | c :: rest => if isGap c || c = '\n' then skipBlankLines rest else c :: rest
  | [] => []

/-- The character of a code point given by `count` hexadecimal digits. -/
def codePoint? (count : Nat) (cs : List Char) : Option (Char × List Char) :=
  let digits := cs.take count
  if digits.length = count then do
    let n ← Number.ofDigits? 16 digits
    if n.isValidChar then some (Char.ofNat n, cs.drop count) else none
  else none

/-- The character of an escape, after its backslash. -/
def escape? : List Char → Option (Char × List Char)
  | 'b' :: rest => some ('\x08', rest)
  | 't' :: rest => some ('\t', rest)
  | 'n' :: rest => some ('\n', rest)
  | 'f' :: rest => some ('\x0c', rest)
  | 'r' :: rest => some ('\r', rest)
  | '"' :: rest => some ('"', rest)
  | '\\' :: rest => some ('\\', rest)
  | 'u' :: rest => codePoint? 4 rest
  | 'U' :: rest => codePoint? 8 rest
  | _ => none

/-- The rest of a string on one line, up to its closing quotation mark. -/
def lineString? (quote : Char) : Nat → List Char → Option (List Char × List Char)
  | 0, _ => none
  | _ + 1, [] => none
  | fuel + 1, c :: rest =>
    if c = quote then some ([], rest)
    else if c = '\\' ∧ quote = '"' then do
      let (d, rest) ← escape? rest
      let (ds, rest) ← lineString? quote fuel rest
      return (d :: ds, rest)
    else if isText c then
      (lineString? quote fuel rest).map fun (cs, rest) => (c :: cs, rest)
    else none

/-- The rest of a string over several lines, up to its three closing quotation
marks; one or two more in front of these belong to the string. -/
def blockString? (quote : Char) : Nat → List Char → Option (List Char × List Char)
  | 0, _ => none
  | _ + 1, [] => none
  | fuel + 1, c :: rest =>
    let more (cs : List Char) (rest : List Char) : Option (List Char × List Char) :=
      (blockString? quote fuel rest).map fun (ds, rest) => (cs ++ ds, rest)
    if c = quote then
      let run := (c :: rest).takeWhile (· = quote)
      let after := (c :: rest).dropWhile (· = quote)
      if run.length < 3 then more run after
      else if run.length ≤ 5 then some (run.drop 3, after)
      else none
    else if c = '\\' ∧ quote = '"' then
      match lineBreak? (skipGap rest) with
      | some rest => more [] (skipBlankLines rest)
      | none => (escape? rest).bind fun (d, rest) => more [d] rest
    else match lineBreak? (c :: rest) with
      | some rest => more ['\n'] rest
      | none => if isText c then more [c] rest else none

/-- A string on one line. -/
def simpleString? : List Char → Option (String × List Char)
  | '"' :: rest => (lineString? '"' (rest.length + 1) rest).map (Prod.map String.ofList id)
  | '\'' :: rest => (lineString? '\'' (rest.length + 1) rest).map (Prod.map String.ofList id)
  | _ => none

/-- A string after its opening quotation marks; a line break right after them does
not count. -/
def openedBlock? (quote : Char) (rest : List Char) : Option (String × List Char) :=
  let rest := skipLineBreak rest
  (blockString? quote (rest.length + 1) rest).map (Prod.map String.ofList id)

/-- A string of any kind. -/
def string? : List Char → Option (String × List Char)
  | '"' :: '"' :: '"' :: rest => openedBlock? '"' rest
  | '\'' :: '\'' :: '\'' :: rest => openedBlock? '\'' rest
  | cs => simpleString? cs

/-- Digits after the first: single underscores may stand between digits. -/
def moreDigits (digit : Char → Bool) : List Char → List Char × List Char
  | '_' :: c :: rest =>
    if digit c then
      let (ds, rest) := moreDigits digit rest
      (c :: ds, rest)
    else ([], '_' :: c :: rest)
  | c :: rest =>
    if digit c then
      let (ds, rest) := moreDigits digit rest
      (c :: ds, rest)
    else ([], c :: rest)
  | [] => ([], [])

/-- A run of digits. -/
def digits? (digit : Char → Bool) : List Char → Option (List Char × List Char)
  | c :: rest =>
    if digit c then
      let (ds, rest) := moreDigits digit rest
      some (c :: ds, rest)
    else none
  | [] => none

/-- Whether a text begins with a minus sign, and what follows its sign. -/
def sign : List Char → Bool × List Char
  | '-' :: rest => (true, rest)
  | '+' :: rest => (false, rest)
  | cs => (false, cs)

/-- The digits of a decimal number; a zero stands alone. -/
def wholeDigits? (cs : List Char) : Option (List Char × List Char) :=
  match cs with
  | '0' :: rest => some (['0'], rest)
  | _ => digits? Number.isDigit cs

/-- The integer, if it fits 64 bits. -/
def integerInRange? (i : Int) : Option Value :=
  if -0x8000000000000000 ≤ i ∧ i < 0x8000000000000000 then some (.integer i) else none

/-- The base that a letter after a zero stands for. -/
def base? : Char → Option Nat
  | 'x' => some 16
  | 'o' => some 8
  | 'b' => some 2
  | _ => none

/-- An integer in front of a text. -/
def integer? (cs : List Char) : Option (Value × List Char) :=
  match cs with
  | '0' :: letter :: rest =>
    match base? letter with
    | some base => do
      let (digits, rest) ← digits? (fun c => (Number.digitValue? base c).isSome) rest
      let value ← integerInRange? (Int.ofNat (← Number.ofDigits? base digits))
      return (value, rest)
    | none => some (.integer 0, letter :: rest)
  | _ => do
    let (negative, rest) := sign cs
    let (digits, rest) ← wholeDigits? rest
    let n := Number.natOfDigits digits
    let value ← integerInRange? (if negative then -(Int.ofNat n) else Int.ofNat n)
    return (value, rest)

/-- Whether a number is too large for 64 bits; the size is estimated first, so that
no huge power is computed. -/
def isTooLarge (coefficient : Nat) (exponent : Int) : Bool :=
  if coefficient = 0 then false
  else
    let size : Int := exponent + Int.ofNat (Number.natText coefficient).length
    if size < 300 then false
    else if 320 < size then true
    else (Number.Binary64.ofDecimal? false coefficient exponent).isNone

/-- The exponent in front of a text. -/
def exponent? : List Char → Option (Int × List Char)
  | 'e' :: rest | 'E' :: rest => do
    let (negative, rest) := sign rest
    let (digits, rest) ← digits? Number.isDigit rest
    let n := Number.natOfDigits digits
    return (if negative then -(Int.ofNat n) else Int.ofNat n, rest)
  | _ => none

/-- The decimal number of its parts, unless it is too large. -/
def decimal? (negative : Bool) (whole fraction : List Char) (exponent : Int) : Option Value :=
  let coefficient := Number.natOfDigits (whole ++ fraction)
  let exponent := exponent - Int.ofNat fraction.length
  if !negative && isTooLarge coefficient exponent then none
  else some (.real (.decimal negative coefficient exponent))

/-- A number with a point or an exponent in front of a text, or one that has no
digits: infinite, or not a number. -/
def real? (cs : List Char) : Option (Value × List Char) :=
  match sign cs with
  | (negative, 'i' :: 'n' :: 'f' :: rest) => some (.real (.infinite negative), rest)
  | (_, 'n' :: 'a' :: 'n' :: rest) => some (.real .nan, rest)
  | (negative, rest) => do
    let (whole, rest) ← wholeDigits? rest
    match rest with
    | '.' :: rest =>
      let (fraction, rest) ← digits? Number.isDigit rest
      match rest with
      | 'e' :: _ | 'E' :: _ =>
        let (exponent, rest) ← exponent? rest
        return (← decimal? negative whole fraction exponent, rest)
      | _ => return (← decimal? negative whole fraction 0, rest)
    | _ =>
      let (exponent, rest) ← exponent? rest
      return (← decimal? negative whole [] exponent, rest)

/-- A truth value in front of a text. -/
def boolean? : List Char → Option (Value × List Char)
  | 't' :: 'r' :: 'u' :: 'e' :: rest => some (.boolean true, rest)
  | 'f' :: 'a' :: 'l' :: 's' :: 'e' :: rest => some (.boolean false, rest)
  | _ => none

/-- A value that is neither array nor table. -/
def scalar? (cs : List Char) : Option (Value × List Char) :=
  (string? cs).map (Prod.map .string id) <|> boolean? cs <|>
    (datetime? cs).map (Prod.map .datetime id) <|> real? cs <|> integer? cs

end LanguageClient.Toml
