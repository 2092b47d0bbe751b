import LanguageClient.Number.Digits
import LanguageClient.Rehearsal.Script.Arithmetic
import LanguageClient.Text.Utf8

/-!
# Printing in scripts

What the printing commands of scripts write: backslash escapes stand for bytes, and a
format is used again until no argument is left.
-/

set_option autoImplicit false

namespace LanguageClient.Script.Printing

/-- The byte of an escape of one letter. -/
def letter? (b : UInt8) : Option UInt8 :=
  ([(97, 7), (98, 8), (102, 12), (110, 10), (114, 13), (116, 9), (118, 11), (92, 92)].find?
    (·.1 = b)).map (·.2)

/-- Whether a byte is an octal digit. -/
def isOctal (b : UInt8) : Bool := 48 ≤ b && b ≤ 55

/-- The value of octal digits. -/
def octal (digits : Bytes) : UInt8 :=
  UInt8.ofNat (digits.foldl (fun n d => n * 8 + (d.toNat - 48)) 0)

/-- The bytes of an escape after its backslash, and the rest. -/
def escape (bytes : Bytes) : Bytes × Bytes :=
  match bytes with
  | [] => ([92], [])
  | b :: rest =>
    if isOctal b then
      let digits := (bytes.take 3).takeWhile isOctal
      ([octal digits], bytes.drop digits.length)
    else match letter? b with
      | some e => ([e], rest)
      | none => ([92, b], rest)

/-- A text with its escapes replaced. -/
def unescape : Nat → Bytes → Bytes
  | 0, _ => []
  | _ + 1, [] => []
  | fuel + 1, 92 :: rest =>
    let (e, rest) := escape rest
    e ++ unescape fuel rest
  | fuel + 1, b :: rest => b :: unescape fuel rest

/-- What a directive with a letter writes for an argument. -/
def directive (letter : UInt8) (argument : Bytes) : Bytes :=
  if letter = 100 ∨ letter = 105 then
    Utf8.encode (toString (Arithmetic.intOf (Utf8.decodeLossy argument).toList))
  else if letter = 98 then unescape (argument.length + 1) argument
  else if letter = 99 then argument.take 1
  else argument

/-- Writes a format once: what is written, and the arguments that are left. -/
def once : Nat → Bytes → List Bytes → Bytes × List Bytes
  | 0, _, arguments => ([], arguments)
  | _ + 1, [], arguments => ([], arguments)
  | fuel + 1, 92 :: rest, arguments =>
    let (e, rest) := escape rest
    let (written, left) := once fuel rest arguments
    (e ++ written, left)
  | fuel + 1, 37 :: 37 :: rest, arguments =>
    let (written, left) := once fuel rest arguments
    (37 :: written, left)
  | fuel + 1, 37 :: letter :: rest, arguments =>
    let (written, left) := once fuel rest (arguments.drop 1)
    (directive letter (arguments.head?.getD []) ++ written, left)
  | fuel + 1, b :: rest, arguments =>
    let (written, left) := once fuel rest arguments
    (b :: written, left)

/-- Writes a format until no argument is left. -/
def format (text : Bytes) : Nat → List Bytes → Bytes
  | 0, _ => []
  | fuel + 1, arguments =>
    let (written, left) := once (text.length + 1) text arguments
    if left.isEmpty ∨ left.length = arguments.length then written
    else written ++ format text fuel left

/-- What printing a format with arguments writes. -/
def formatted (text : Bytes) (arguments : List Bytes) : Bytes :=
  format text (arguments.length + 1) arguments

/-- Texts side by side, with a blank between them. -/
def spaced : List Bytes → Bytes
  | [] => []
  | [text] => text
  | text :: rest => text ++ 32 :: spaced rest

/-- What echoing arguments writes. -/
def echoed (arguments : List Bytes) : Bytes :=
  let (texts, ending) : List Bytes × Bytes :=
    match arguments with
    | [45, 110] :: rest => (rest, [])
    | texts => (texts, [10])
  let text := spaced texts
  unescape (text.length + 1) text ++ ending

end LanguageClient.Script.Printing
