import LanguageClient.Json.Lexer
import LanguageClient.Text.Utf8

/-!
# Strict JSON reading

A value is read from its tokens by a fold whose state is the stack of arrays and
objects that are still open.  Nothing but the grammar is accepted, nesting is
limited, and of several members with one key the last counts.
-/

set_option autoImplicit false

namespace LanguageClient.Json

/-- An array or object that is still open. -/
inductive Level where
  /-- An array with its items so far in reverse. -/
  | array (items : List Json)
  /-- An object with its members so far and the key whose value is being read. -/
  | object (members : Members) (key : String)
  deriving DecidableEq, Repr

/-- What the grammar allows next. -/
inductive Expect where
  /-- A value. -/
  | value
  /-- A value, or the end of the array just opened. -/
  | firstItem
  /-- A key, or the end of the object just opened. -/
  | firstKey (members : Members)
  /-- A key. -/
  | key (members : Members)
  /-- The colon after a key. -/
  | colon (members : Members) (key : String)
  /-- A comma or the end of the innermost level, whose last value is complete. -/
  | next (v : Json)
  deriving DecidableEq, Repr

/-- The state of reading: the open levels, innermost first, and what may follow. -/
structure Parsing where
  levels : List Level
  expect : Expect
  deriving DecidableEq, Repr

/-- Opens a level unless the limit of nesting is reached. -/
def Parsing.enter (limit : Nat) (levels : List Level) (level : Option Level) (expect : Expect) :
    Option Parsing :=
  if levels.length < limit then some ⟨level.toList ++ levels, expect⟩ else none

/-- Reads a token where a value may start. -/
def Parsing.startValue (limit : Nat) (levels : List Level) : Token → Option Parsing
  | .openArray => Parsing.enter limit levels (some (.array [])) .firstItem
  | .openObject => Parsing.enter limit levels none (.firstKey [])
  | .text s => some ⟨levels, .next (.str s)⟩
  | .scalar v => some ⟨levels, .next v⟩
  | _ => none

/-- Reads a token after a complete value. -/
def Parsing.continueLevel (levels : List Level) (v : Json) : Token → Option Parsing
  | .comma =>
    match levels with
    | .array items :: outer => some ⟨.array (v :: items) :: outer, .value⟩
    | .object members key :: outer => some ⟨outer, .key (Entries.put key v members)⟩
    | [] => none
  | .closeArray =>
    match levels with
    | .array items :: outer => some ⟨outer, .next (.arr (v :: items).reverse)⟩
    | _ => none
  | .closeObject =>
    match levels with
    | .object members key :: outer => some ⟨outer, .next (.obj (Entries.put key v members))⟩
    | _ => none
  | _ => none

/-- Reads one token. -/
def Parsing.read (limit : Nat) (p : Parsing) (t : Token) : Option Parsing :=
  match p.expect with
  | .value => Parsing.startValue limit p.levels t
  | .firstItem =>
    match t, p.levels with
    | .closeArray, .array _ :: outer => some ⟨outer, .next (.arr [])⟩
    | t, levels => Parsing.startValue limit levels t
  | .firstKey members =>
    match t with
    | .closeObject => some ⟨p.levels, .next (.obj members)⟩
    | .text s => some ⟨p.levels, .colon members s⟩
    | _ => none
  | .key members =>
    match t with
    | .text s => some ⟨p.levels, .colon members s⟩
    | _ => none
  | .colon members key =>
    match t with
    | .colon => some ⟨.object members key :: p.levels, .value⟩
    | _ => none
  | .next v => Parsing.continueLevel p.levels v t

/-- Reads tokens in turn. -/
def Parsing.readAll (limit : Nat) (p : Parsing) (ts : List Token) : Option Parsing :=
  ts.foldlM (Parsing.read limit) p

/-- The value when nothing is left open. -/
def Parsing.result? : Parsing → Option Json
  | ⟨[], .next v⟩ => some v
  | _ => none

/-- How deeply arrays and objects may be nested. -/
def nestingLimit : Nat := 127

/-- Reads a value nested at most `limit` deep from its text. -/
def readChars? (limit : Nat) (cs : List Char) : Option Json := do
  let ts ← tokens? cs
  let p ← Parsing.readAll limit ⟨[], .value⟩ ts
  p.result?

/-- Reads a value from its text. -/
def read? (text : String) : Option Json :=
  readChars? nestingLimit text.toList

/-- Reads a value from the UTF-8 bytes of its text. -/
def readBytes? (bytes : Bytes) : Option Json :=
  (Utf8.chars? bytes).bind (readChars? nestingLimit)

end LanguageClient.Json
