/-!
# UTF-8

Characters as bytes and back.  The decoder is a fold over single bytes whose
state is the character that is still incomplete, so a byte sequence can be cut
anywhere.  Strict reading accepts exactly the sequences without a broken piece;
lenient reading shows one replacement character for each broken piece.
-/

set_option autoImplicit false

namespace LanguageClient

/-- A sequence of bytes. -/
abbrev Bytes := List UInt8

namespace Utf8

/-- The bytes of a text. -/
def encode (s : String) : Bytes :=
  s.toList.flatMap String.utf8EncodeChar

/-- A character of which the first bytes have been read. -/
structure Pending where
  /-- How many bytes are still missing, at least one. -/
  missing : Nat
  /-- The least byte that may come next. -/
  low : UInt8
  /-- The greatest byte that may come next. -/
  high : UInt8
  /-- The payload bits read so far. -/
  value : Nat
  deriving DecidableEq, Repr

/-- What the decoder finds: a character, or a maximal incomplete sequence. -/
inductive Piece where
  | char (c : Char)
  | broken
  deriving DecidableEq, Repr

/-- The state after the first byte of a longer character, if `b` can be one.

The bounds of the second byte exclude overlong forms, surrogates and values
above the last code point. -/
def lead? (b : UInt8) : Option Pending :=
  if 0xC2 ≤ b ∧ b ≤ 0xDF then some ⟨1, 0x80, 0xBF, (b.toNat - 0xC0)⟩
  else if b = 0xE0 then some ⟨2, 0xA0, 0xBF, 0⟩
  else if b = 0xED then some ⟨2, 0x80, 0x9F, 0xD⟩
  else if 0xE1 ≤ b ∧ b ≤ 0xEF then some ⟨2, 0x80, 0xBF, (b.toNat - 0xE0)⟩
  else if b = 0xF0 then some ⟨3, 0x90, 0xBF, 0⟩
  else if b = 0xF4 then some ⟨3, 0x80, 0x8F, 4⟩
  else if 0xF1 ≤ b ∧ b ≤ 0xF3 then some ⟨3, 0x80, 0xBF, (b.toNat - 0xF0)⟩
  else none

/-- A byte where a character may start. -/
def start (b : UInt8) : Option Pending × List Piece :=
  if b < 0x80 then (none, [.char (Char.ofNat b.toNat)])
  else match lead? b with
    | some p => (some p, [])
    | none => (none, [.broken])

/-- One byte: continue the pending character, or give it up and start anew. -/
def step : Option Pending → UInt8 → Option Pending × List Piece
  | none, b => start b
  | some p, b =>
    if p.low ≤ b ∧ b ≤ p.high then
      let value := p.value * 64 + (b.toNat - 0x80)
      if p.missing ≤ 1 then (none, [.char (Char.ofNat value)])
      else (some ⟨p.missing - 1, 0x80, 0xBF, value⟩, [])
    else
      let (next, found) := start b
      (next, .broken :: found)

/-- The pieces of a byte sequence, read on from a pending character. -/
def piecesFrom : Option Pending → Bytes → List Piece
  | none, [] => []
  | some _, [] => [.broken]
  | state, b :: rest =>
    let (next, found) := step state b
    found ++ piecesFrom next rest

/-- The pieces of a byte sequence. -/
def pieces (bytes : Bytes) : List Piece :=
  piecesFrom none bytes

/-- The character of a piece, if it is one. -/
def Piece.char? : Piece → Option Char
  | .char c => some c
  | .broken => none

/-- The character shown for a piece. -/
def Piece.shown : Piece → Char
  | .char c => c
  | .broken => '\uFFFD'

/-- The characters of a byte sequence, if it is well formed. -/
def chars? (bytes : Bytes) : Option (List Char) :=
  (pieces bytes).mapM Piece.char?

/-- The text of a byte sequence, if it is well formed. -/
def decode? (bytes : Bytes) : Option String :=
  (chars? bytes).map String.ofList

/-- The text of a byte sequence, with a replacement character for each broken piece. -/
def decodeLossy (bytes : Bytes) : String :=
  String.ofList ((pieces bytes).map Piece.shown)

end Utf8

end LanguageClient
