import LanguageClient.Json.Number
import LanguageClient.Text.Blank

/-!
# JSON tokens

Tokens are found by a fold over the characters whose state is the token that is
still being read.  The first character that does not belong to a word or number
ends it and is then looked at afresh.
-/

set_option autoImplicit false

namespace LanguageClient.Json

/-- A token; literals carry the value they stand for. -/
inductive Token where
  | openObject
  | closeObject
  | openArray
  | closeArray
  | comma
  | colon
  | text (s : String)
  | scalar (v : Json)
  deriving DecidableEq, Repr

/-- The token that is being read, with its characters in reverse. -/
inductive Reading where
  | blank
  | word (cs : List Char)
  | number (cs : List Char)
  | string (cs : List Char)
  | escaped (cs : List Char)
  /-- Inside a code unit: digits still missing and the value so far. -/
  | unit (cs : List Char) (missing value : Nat)
  /-- After the first code unit of a pair, before the backslash. -/
  | pair (cs : List Char) (high : Nat)
  /-- After the backslash between the code units of a pair. -/
  | pairEscaped (cs : List Char) (high : Nat)
  /-- Inside the second code unit of a pair. -/
  | pairUnit (cs : List Char) (high missing value : Nat)
  deriving DecidableEq, Repr

/-- Whether the character may stand between tokens. -/
def isSpace (c : Char) : Bool := Text.isGap c || c = '\n' || c = '\r'

/-- Whether the character may belong to a number literal. -/
def inNumber (c : Char) : Bool :=
  Number.isDigit c || c = '-' || c = '+' || c = '.' || c = 'e' || c = 'E'

/-- Whether the character may belong to a word. -/
def inWord (c : Char) : Bool := 'a' ≤ c && c ≤ 'z'

/-- The token of a complete word. -/
def wordToken? (cs : List Char) : Option Token :=
  if cs = ['t', 'r', 'u', 'e'] then some (.scalar (.bool true))
  else if cs = ['f', 'a', 'l', 's', 'e'] then some (.scalar (.bool false))
  else if cs = ['n', 'u', 'l', 'l'] then some (.scalar .null)
  else none

/-- A character where a token may start. -/
def fresh (c : Char) : Option (Reading × List Token) :=
  if isSpace c then some (.blank, [])
  else if c = '\x7b' then some (.blank, [.openObject])
  else if c = '\x7d' then some (.blank, [.closeObject])
  else if c = '[' then some (.blank, [.openArray])
  else if c = ']' then some (.blank, [.closeArray])
  else if c = ',' then some (.blank, [.comma])
  else if c = ':' then some (.blank, [.colon])
  else if c = '"' then some (.string [], [])
  else if c = '-' ∨ Number.isDigit c then some (.number [c], [])
  else if inWord c then some (.word [c], [])
  else none

/-- The character of a short escape. -/
def unescape? (c : Char) : Option Char :=
  if c = '"' then some '"'
  else if c = '\\' then some '\\'
  else if c = '/' then some '/'
  else if c = 'b' then some '\x08'
  else if c = 'f' then some '\x0c'
  else if c = 'n' then some '\n'
  else if c = 'r' then some '\r'
  else if c = 't' then some '\t'
  else none

/-- Whether the code unit is the first of a surrogate pair. -/
def isHighSurrogate (n : Nat) : Bool := 0xD800 ≤ n && n ≤ 0xDBFF

/-- Whether the code unit is the second of a surrogate pair. -/
def isLowSurrogate (n : Nat) : Bool := 0xDC00 ≤ n && n ≤ 0xDFFF

/-- The reading after a complete code unit that starts a character. -/
def afterUnit (cs : List Char) (value : Nat) : Option Reading :=
  if isHighSurrogate value then some (.pair cs value)
  else if isLowSurrogate value then none
  else some (.string (Char.ofNat value :: cs))

/-- The reading after the second code unit of a pair. -/
def afterPair (cs : List Char) (high value : Nat) : Option Reading :=
  if isLowSurrogate value then
    some (.string (Char.ofNat (0x10000 + (high - 0xD800) * 0x400 + (value - 0xDC00)) :: cs))
  else none

/-- Puts a token in front of what a fresh character yields. -/
def endToken (token : Option Token) (c : Char) : Option (Reading × List Token) :=
  token.bind fun t => (fresh c).map fun (r, ts) => (r, t :: ts)

/-- Reads one character: the next state and the tokens completed by it. -/
def readChar : Reading → Char → Option (Reading × List Token)
  | .blank, c => fresh c
  | .word cs, c =>
    if inWord c then some (.word (c :: cs), []) else endToken (wordToken? cs.reverse) c
  | .number cs, c =>
    if inNumber c then some (.number (c :: cs), [])
    else endToken ((number? cs.reverse).map .scalar) c
  | .string cs, c =>
    if c = '"' then some (.blank, [.text (String.ofList cs.reverse)])
    else if c = '\\' then some (.escaped cs, [])
    else if c.toNat < 0x20 then none
    else some (.string (c :: cs), [])
  | .escaped cs, c =>
    if c = 'u' then some (.unit cs 4 0, [])
    else (unescape? c).map fun d => (.string (d :: cs), [])
  | .unit cs missing value, c =>
    (Number.digitValue? 16 c).bind fun d =>
      if missing ≤ 1 then (afterUnit cs (value * 16 + d)).map (·, [])
      else some (.unit cs (missing - 1) (value * 16 + d), [])
  | .pair cs high, c => if c = '\\' then some (.pairEscaped cs high, []) else none
  | .pairEscaped cs high, c => if c = 'u' then some (.pairUnit cs high 4 0, []) else none
  | .pairUnit cs high missing value, c =>
    (Number.digitValue? 16 c).bind fun d =>
      if missing ≤ 1 then (afterPair cs high (value * 16 + d)).map (·, [])
      else some (.pairUnit cs high (missing - 1) (value * 16 + d), [])

/-- The tokens completed by the end of the text. -/
def readEnd : Reading → Option (List Token)
  | .blank => some []
  | .word cs => (wordToken? cs.reverse).map ([·])
  | .number cs => (number? cs.reverse).map ([.scalar ·])
  | _ => none

/-- The tokens of a text, read on from a state. -/
def tokensFrom : Reading → List Char → Option (List Token)
  | state, [] => readEnd state
  | state, c :: rest =>
    (readChar state c).bind fun (next, found) => (tokensFrom next rest).map (found ++ ·)

/-- The tokens of a text. -/
def tokens? (cs : List Char) : Option (List Token) :=
  tokensFrom .blank cs

end LanguageClient.Json
