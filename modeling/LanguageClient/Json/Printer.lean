import LanguageClient.Json.Basic
import LanguageClient.Number.Digits
import LanguageClient.Number.Shortest

/-!
# Compact JSON text

The text of a value without any blank.  Strings escape the quotation mark, the
backslash and the control characters below the space, and nothing else.
-/

set_option autoImplicit false

namespace LanguageClient.Json

/-- How a floating-point number is laid out from its digits. -/
structure FloatLayout where
  /-- The least decimal exponent that is written positionally. -/
  leastPositional : Int
  /-- The least decimal exponent that is written with a power of ten again. -/
  leastScientific : Int

/-- Numbers from `1e-5` up to below `1e16` are positional and keep a fractional part;
all others have a signed power of ten. -/
def floatLayout : FloatLayout := ⟨-5, 16⟩

/-- The text of a signed power of ten. -/
def powerText : Int → List Char
  | .ofNat n => 'e' :: '+' :: Number.natText n
  | .negSucc n => 'e' :: '-' :: Number.natText (n + 1)

/-- The text of a positive number given by its digits. -/
def decimalText (layout : FloatLayout) (d : Number.Decimal) : List Char :=
  let digits := Number.natText d.digits
  let log10 : Int := d.exponent + digits.length - 1
  if layout.leastPositional ≤ log10 ∧ log10 < layout.leastScientific then
    if 0 ≤ d.exponent then digits ++ List.replicate d.exponent.toNat '0' ++ ['.', '0']
    else if 0 ≤ log10 then
      digits.take (log10.toNat + 1) ++ '.' :: digits.drop (log10.toNat + 1)
    else '0' :: '.' :: List.replicate (-log10 - 1).toNat '0' ++ digits
  else
    match digits with
    | [] => []
    | [first] => first :: powerText log10
    | first :: rest => first :: '.' :: rest ++ powerText log10

/-- The text of a floating-point number: the fewest digits that read back. -/
def floatText (x : Number.Binary64) : List Char :=
  let magnitude :=
    if x.isZero then ['0', '.', '0'] else decimalText floatLayout (Number.shortest x)
  if x.negative then '-' :: magnitude else magnitude

/-- One hexadecimal digit in lower case. -/
def hexDigit (n : Nat) : Char := Nat.digitChar (n % 16)

/-- How one character is written inside a string. -/
def escape (c : Char) : List Char :=
  if c = '"' then ['\\', '"']
  else if c = '\\' then ['\\', '\\']
  else if c = '\x08' then ['\\', 'b']
  else if c = '\x0c' then ['\\', 'f']
  else if c = '\n' then ['\\', 'n']
  else if c = '\r' then ['\\', 'r']
  else if c = '\t' then ['\\', 't']
  else if c.toNat < 0x20 then
    ['\\', 'u', '0', '0', hexDigit (c.toNat / 16), hexDigit c.toNat]
  else [c]

/-- A string between quotation marks. -/
def quote (s : String) : List Char :=
  '"' :: s.toList.flatMap escape ++ ['"']

mutual

/-- The compact text of a value. -/
def chars : Json → List Char
  | .null => ['n', 'u', 'l', 'l']
  | .bool true => ['t', 'r', 'u', 'e']
  | .bool false => ['f', 'a', 'l', 's', 'e']
  | .int i => Number.intText i
  | .float x => floatText x
  | .str s => quote s
  | .arr items => '[' :: charsItems items ++ [']']
  | .obj members => '\x7b' :: charsMembers members ++ ['\x7d']

/-- The texts of the items, with commas between them. -/
def charsItems : List Json → List Char
  | [] => []
  | [v] => chars v
  | v :: rest => chars v ++ ',' :: charsItems rest

/-- The texts of the members, with commas between them. -/
def charsMembers : List (String × Json) → List Char
  | [] => []
  | [(k, v)] => quote k ++ ':' :: chars v
  | (k, v) :: rest => quote k ++ ':' :: chars v ++ ',' :: charsMembers rest

end

/-- The compact text of a value. -/
def text (v : Json) : String := String.ofList (chars v)

end LanguageClient.Json
