import LanguageClient.Number.Digits
import LanguageClient.Rehearsal.Script.Command

/-!
# Tokens of scripts

A script is cut into words, operators and redirections.  Quotes, backslashes and values
inside words are resolved into pieces here; comments and continued lines are dropped.
-/

set_option autoImplicit false

namespace LanguageClient.Script

/-- A token of a script; a redirection is followed by the word of its target. -/
inductive Token where
  | word (w : Word)
  /-- The end of a line or a semicolon. -/
  | separator
  | andAnd
  | orOr
  | openParen
  | closeParen
  | redirect (stream : Nat) (target : Word → Target)

/-- Whether a character may start a name. -/
def startsName (c : Char) : Bool := c.isAlpha || c = '_'

/-- Whether a character may go on in a name. -/
def inName (c : Char) : Bool := startsName c || Number.isDigit c

/-- Whether a character is a parameter of one character. -/
def isSpecial (c : Char) : Bool := Number.isDigit c || "?#@*$!".toList.contains c

/-- The character that begins an older kind of substitution, which is not supported. -/
def backtick : Char := Char.ofNat 96

/-- Whether a character ends a word. -/
def endsWord (c : Char) : Bool := " \t\n;&|<>()".toList.contains c

/-- The text of an arithmetic expression up to its two closing parentheses. -/
def expression? : Nat → List Char → Option (List Char × List Char)
  | 0, ')' :: ')' :: rest => some ([], rest)
  | depth, '(' :: rest => (expression? (depth + 1) rest).map fun (e, r) => ('(' :: e, r)
  | depth + 1, ')' :: rest => (expression? depth rest).map fun (e, r) => (')' :: e, r)
  | depth, c :: rest => (expression? depth rest).map fun (e, r) => (c :: e, r)
  | _, [] => none

/-- The piece after a dollar sign. -/
def dollar? (quoted : Bool) : List Char → Option (Piece × List Char)
  | '(' :: '(' :: rest => (expression? 0 rest).map fun (e, r) => (.sum e quoted, r)
  | '(' :: _ => none
  | '\x7b' :: rest =>
    match rest.dropWhile (fun c => inName c || isSpecial c) with
    | '\x7d' :: after =>
      some (.value (String.ofList (rest.takeWhile fun c => inName c || isSpecial c)) quoted, after)
    | _ => none
  | c :: rest =>
    if startsName c then
      some (.value (String.ofList (c :: rest.takeWhile inName)) quoted, rest.dropWhile inName)
    else if isSpecial c then some (.value (String.singleton c) quoted, rest)
    else some (.text ['$'] quoted, c :: rest)
  | [] => some (.text ['$'] quoted, [])

/-- The text up to a single quote. -/
def singleQuoted? : List Char → Option (List Char × List Char)
  | [] => none
  | '\'' :: rest => some ([], rest)
  | c :: rest => (singleQuoted? rest).map fun (t, r) => (c :: t, r)

/-- Adds a piece in front of the pieces of the rest. -/
def consPiece (p : Piece) (found : Option (List Piece × List Char)) :
    Option (List Piece × List Char) :=
  found.map fun (ps, r) => (p :: ps, r)

/-- The pieces up to a double quote. -/
def doubleQuoted? : Nat → List Char → Option (List Piece × List Char)
  | 0, _ => none
  | _ + 1, [] => none
  | _ + 1, '"' :: rest => some ([], rest)
  | fuel + 1, '\\' :: '\n' :: rest => doubleQuoted? fuel rest
  | fuel + 1, '\\' :: c :: rest =>
    if "$\"\\".toList.contains c || c = backtick then consPiece (.text [c] true) (doubleQuoted? fuel rest)
    else consPiece (.text ['\\', c] true) (doubleQuoted? fuel rest)
  | fuel + 1, '$' :: rest => do
    let (p, rest) ← dollar? true rest
    consPiece p (doubleQuoted? fuel rest)
  | fuel + 1, c :: rest =>
    if c = backtick then none else consPiece (.text [c] true) (doubleQuoted? fuel rest)

/-- The pieces of a word. -/
def word? : Nat → List Char → Option (Word × List Char)
  | 0, _ => none
  | _ + 1, [] => some ([], [])
  | fuel + 1, '\'' :: rest => do
    let (t, rest) ← singleQuoted? rest
    consPiece (.text t true) (word? fuel rest)
  | fuel + 1, '"' :: rest => do
    let (ps, rest) ← doubleQuoted? fuel rest
    let (more, rest) ← word? fuel rest
    return (.text [] true :: ps ++ more, rest)
  | fuel + 1, '\\' :: '\n' :: rest => word? fuel rest
  | fuel + 1, '\\' :: c :: rest => consPiece (.text [c] true) (word? fuel rest)
  | fuel + 1, '$' :: rest => do
    let (p, rest) ← dollar? false rest
    consPiece p (word? fuel rest)
  | fuel + 1, c :: rest =>
    if endsWord c then some ([], c :: rest)
    else if c = backtick then none
    else consPiece (.text [c] false) (word? fuel rest)

/-- The target of a redirection to a stream that is named by a word. -/
def streamTarget (w : Word) : Target :=
  match w with
  | [.text ['-'] _] => .closed
  | [.text [c] _] => if Number.isDigit c then .stream (c.toNat - 48) else .writeTo w
  | _ => .writeTo w

/-- The redirection at the start, for the stream that stands in front of it. -/
def redirect? (stream : Option Nat) : List Char → Option (Token × List Char)
  | '>' :: '>' :: rest => some (.redirect (stream.getD 1) .appendTo, rest)
  | '>' :: '&' :: rest => some (.redirect (stream.getD 1) streamTarget, rest)
  | '>' :: '|' :: rest | '>' :: rest => some (.redirect (stream.getD 1) .writeTo, rest)
  | '<' :: '<' :: _ => none
  | '<' :: '&' :: rest => some (.redirect (stream.getD 0) streamTarget, rest)
  | '<' :: rest => some (.redirect (stream.getD 0) .readFrom, rest)
  | _ => none

/-- The token at the start of a text that does not start with a blank or comment. -/
def token? (fuel : Nat) (cs : List Char) : Option (Token × List Char) :=
  match cs with
  | '\n' :: rest | ';' :: rest => some (.separator, rest)
  | '&' :: '&' :: rest => some (.andAnd, rest)
  | '|' :: '|' :: rest => some (.orOr, rest)
  | '&' :: _ | '|' :: _ => none
  | '(' :: rest => some (.openParen, rest)
  | ')' :: rest => some (.closeParen, rest)
  | '<' :: _ | '>' :: _ => redirect? none cs
  | c :: d :: rest =>
    if Number.isDigit c && (d = '<' || d = '>') then redirect? (some (c.toNat - 48)) (d :: rest)
    else (word? fuel cs).map fun (w, r) => (.word w, r)
  | cs => (word? fuel cs).map fun (w, r) => (.word w, r)

/-- The tokens of a text. -/
def tokens? : Nat → List Char → Option (List Token)
  | 0, _ => none
  | _ + 1, [] => some []
  | fuel + 1, ' ' :: rest | fuel + 1, '\t' :: rest | fuel + 1, '\\' :: '\n' :: rest =>
    tokens? fuel rest
  | fuel + 1, '#' :: rest => tokens? fuel (rest.dropWhile (· ≠ '\n'))
  | fuel + 1, cs => do
    let (t, rest) ← token? fuel cs
    return t :: (← tokens? fuel rest)

end LanguageClient.Script
