import LanguageClient.Number.Digits
import LanguageClient.Text.Utf8

/-!
# Percent encoding

Bytes in URIs: a byte outside a safe set is written as a percent sign and two
hexadecimal digits.
-/

set_option autoImplicit false

namespace LanguageClient.Percent

/-- The ASCII characters, the controls apart, that are encoded inside a path segment. -/
def reserved : List Char :=
  [' ', '"', '<', '>', '\x60', '#', '?', '\x7b', '\x7d', '/', '%', '\\']

/-- Whether a byte stands for itself inside a path segment. -/
def isPlain (b : UInt8) : Bool :=
  0x20 ≤ b && b < 0x7F && !reserved.contains (Char.ofNat b.toNat)

/-- One hexadecimal digit in upper case. -/
def hexDigit (n : Nat) : Char := (Nat.digitChar (n % 16)).toUpper

/-- How one byte is written. -/
def encodeByte (b : UInt8) : List Char :=
  if isPlain b then [Char.ofNat b.toNat]
  else ['%', hexDigit (b.toNat / 16), hexDigit b.toNat]

/-- How a path segment is written. -/
def encode (bytes : Bytes) : List Char :=
  bytes.flatMap encodeByte

/-- The bytes of a text: a percent sign with two hexadecimal digits is one byte, and
every other character stands for itself. -/
def decode : List Char → Bytes
  | [] => []
  | '%' :: a :: b :: rest =>
    match Number.digitValue? 16 a, Number.digitValue? 16 b with
    | some x, some y => UInt8.ofNat (x * 16 + y) :: decode rest
    | _, _ => 37 :: decode (a :: b :: rest)
  | c :: rest => String.utf8EncodeChar c ++ decode rest

end LanguageClient.Percent
