import LanguageClient.Toml.Draft
import LanguageClient.Toml.Scalar

/-!
# Reading a document

A document is a sequence of lines: blank lines, comments, headers, and keys with
their values.  Arrays may go over several lines.  Arrays and inline tables are
nested at most `maxDepth` deep, and a dotted key has at most as many parts.
-/

set_option autoImplicit false

namespace LanguageClient.Toml

/-- The greatest depth of nested values, and the greatest number of parts of a key. -/
def maxDepth : Nat := 79

/-- The text after a comment, up to its line break. -/
def skipComment (cs : List Char) : List Char := cs.dropWhile isText

/-- The text after the end of a line, which may hold a comment. -/
def endOfLine? (cs : List Char) : Option (List Char) :=
  let rest := match skipGap cs with
    | '#' :: rest => skipComment rest
    | rest => rest
  if rest.isEmpty then some [] else lineBreak? rest

/-- The text after gaps, line breaks and comments. -/
def skipSpace : Nat → List Char → List Char
  | 0, cs => cs
  | fuel + 1, cs =>
    match skipBlankLines cs with
    | '#' :: rest => skipSpace fuel (skipComment rest)
    | rest => rest

/-- Whether the character may stand in a key without quotation marks. -/
def isBare (c : Char) : Bool :=
  ('a' ≤ c && c ≤ 'z') || ('A' ≤ c && c ≤ 'Z') || Number.isDigit c || c = '-' || c = '_'

/-- One part of a key. -/
def keyPart? (cs : List Char) : Option (String × List Char) :=
  match cs with
  | '"' :: _ | '\'' :: _ => simpleString? cs
  | _ =>
    let name := cs.takeWhile isBare
    if name.isEmpty then none else some (String.ofList name, cs.dropWhile isBare)

/-- The parts of a dotted key. -/
def keyParts? : Nat → List Char → Option (List String × List Char)
  | 0, _ => none
  | fuel + 1, cs => do
    let (part, rest) ← keyPart? (skipGap cs)
    match skipGap rest with
    | '.' :: rest =>
      let (parts, rest) ← keyParts? fuel rest
      return (part :: parts, rest)
    | rest => return ([part], rest)

/-- A dotted key in front of a text. -/
def key? (cs : List Char) : Option (List String × List Char) := keyParts? maxDepth cs

section Nested

variable (value? : List Char → Option (Value × List Char))

/-- The items of an array after its opening bracket. -/
def items? : Nat → List Char → Option (List Value × List Char)
  | 0, _ => none
  | fuel + 1, cs =>
    match skipSpace cs.length cs with
    | ']' :: rest => some ([], rest)
    | cs => do
      let (v, rest) ← value? cs
      match skipSpace rest.length rest with
      | ',' :: rest =>
        let (vs, rest) ← items? fuel rest
        return (v :: vs, rest)
      | ']' :: rest => return ([v], rest)
      | _ => none

/-- A key with its value. -/
def keyValue? (cs : List Char) : Option ((List String × Value) × List Char) := do
  let (key, rest) ← key? cs
  let rest ← expect? '=' rest
  let (v, rest) ← value? (skipGap rest)
  return ((key, v), rest)

/-- The members of an inline table after its opening brace or a comma. -/
def members? (members : Entries Draft) : Nat → List Char → Option (Entries Draft × List Char)
  | 0, _ => none
  | fuel + 1, cs => do
    let ((key, v), rest) ← keyValue? value? cs
    let members ← Draft.assign (.value v) members key
    match skipGap rest with
    | ',' :: rest => members? members fuel rest
    | '\x7d' :: rest => return (members, rest)
    | _ => none

/-- An inline table after its opening brace. -/
def inlineTable? (cs : List Char) : Option (Value × List Char) :=
  match skipGap cs with
  | '\x7d' :: rest => some (.empty, rest)
  | cs => (members? value? [] (cs.length + 1) cs).map fun (ms, rest) =>
      (.table (Draft.valuesOf ms), rest)

end Nested

/-- A value in front of a text, with arrays and inline tables nested at most so deep. -/
def value? : Nat → List Char → Option (Value × List Char)
  | 0, cs => scalar? cs
  | depth + 1, cs =>
    match cs with
    | '[' :: rest =>
      (items? (value? depth) (rest.length + 1) rest).map fun (vs, rest) => (.array vs, rest)
    | '\x7b' :: rest => inlineTable? (value? depth) rest
    | _ => scalar? cs

/-- A document that has been read in part. -/
structure Document where
  /-- The tables so far. -/
  members : Entries Draft
  /-- The path of the header in force. -/
  current : List String

namespace Document

/-- Opens what a header names. -/
def header? (doc : Document) (change : String → Entries Draft → Option (Entries Draft))
    (path : List String) : Option Document := do
  let key ← path.getLast?
  let members ← Draft.modify (change key) doc.members path.dropLast
  return { members, current := path }

/-- Puts a value under a key of the table in force. -/
def assign? (doc : Document) (key : List String) (v : Value) : Option Document :=
  (Draft.modify (fun ms => Draft.assign (.value v) ms key) doc.members doc.current).map
    ({ doc with members := · })

/-- The next line that is not blank, after the gap in front of it. -/
def line? (doc : Document) (cs : List Char) : Option (Document × List Char) :=
  match cs with
  | '#' :: _ | '\n' :: _ | '\r' :: _ => (endOfLine? cs).map (doc, ·)
  | '[' :: '[' :: rest => do
    let (path, rest) ← key? rest
    let rest ← endOfLine? (← expect? ']' (← expect? ']' rest))
    return (← doc.header? Draft.openItem path, rest)
  | '[' :: rest => do
    let (path, rest) ← key? rest
    let rest ← endOfLine? (← expect? ']' rest)
    return (← doc.header? Draft.openTable path, rest)
  | _ => do
    let ((key, v), rest) ← keyValue? (value? maxDepth) cs
    let rest ← endOfLine? rest
    return (← doc.assign? key v, rest)

/-- All lines. -/
def lines? (doc : Document) : Nat → List Char → Option Document
  | 0, _ => none
  | fuel + 1, cs =>
    match skipGap cs with
    | [] => some doc
    | cs => (doc.line? cs).bind fun (doc, rest) => lines? doc fuel rest

end Document

/-- The table that a document describes, if it is well formed; a byte order mark in
front does not count. -/
def read? (cs : List Char) : Option Value :=
  let cs := match cs with
    | '\uFEFF' :: rest => rest
    | cs => cs
  (Document.lines? ⟨[], []⟩ (cs.length + 1) cs).map fun doc => .table (Draft.valuesOf doc.members)

end LanguageClient.Toml
