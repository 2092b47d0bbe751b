import LanguageClient.Rehearsal.Script.Lexer

/-!
# Reading scripts

The tokens of a script are read as a command.  Words such as `if` count only where a
command may start and when nothing in them is quoted.
-/

set_option autoImplicit false

namespace LanguageClient.Script

/-- The text of a word in which nothing is quoted or replaced. -/
def plain? : Word → Option (List Char)
  | [] => some []
  | .text cs false :: rest => (plain? rest).map (cs ++ ·)
  | _ => none

/-- Whether a token is a plain word with a text. -/
def Token.spells (text : String) : Token → Bool
  | .word w => (plain? w).any (· == text.toList)
  | _ => false

/-- The words that end a list of commands. -/
def closers : List String := ["then", "else", "elif", "fi", "do", "done", "\x7d"]

/-- Whether a token ends a list of commands. -/
def Token.closes : Token → Bool
  | .closeParen => true
  | t => closers.any t.spells

/-- Whether a token separates commands. -/
def Token.separates : Token → Bool
  | .separator => true
  | _ => false

/-- The tokens after an expected word. -/
def expect? (text : String) : List Token → Option (List Token)
  | t :: rest => if t.spells text then some rest else none
  | [] => none

/-- The name and value of a word that is an assignment; `name` is what has been read. -/
def assignment? (name : List Char) : Word → Option (String × Word)
  | .text [c] false :: rest =>
    if c = '=' ∧ name ≠ [] then some (String.ofList name.reverse, rest)
    else if (if name = [] then startsName c else inName c) then assignment? (c :: name) rest
    else none
  | _ => none

/-- The parts of a simple command, or the redirections after a group. -/
structure Parts where
  assignments : List (String × Word)
  words : List Word
  redirects : List Redirect

/-- Reads words and redirections as long as there are any. -/
def parts (found : Parts) : List Token → Parts × List Token
  | .redirect n target :: .word w :: rest =>
    parts { found with redirects := found.redirects ++ [⟨n, target w⟩] } rest
  | .word w :: rest =>
    match found.words, assignment? [] w with
    | [], some a => parts { found with assignments := found.assignments ++ [a] } rest
    | _, _ => parts { found with words := found.words ++ [w] } rest
  | rest => (found, rest)

/-- A simple command. -/
def simple? (tokens : List Token) : Option (Command × List Token) :=
  let (p, rest) := parts ⟨[], [], []⟩ tokens
  if p.assignments.isEmpty && p.words.isEmpty && p.redirects.isEmpty then none
  else some (.simple p.assignments p.words p.redirects, rest)

/-- A group with the redirections after it. -/
def grouped? (body : Command) (tokens : List Token) : Option (Command × List Token) :=
  let (p, rest) := parts ⟨[], [], []⟩ tokens
  if p.assignments.isEmpty && p.words.isEmpty then some (.group body p.redirects, rest)
  else none

/-- The words of a loop over words, up to the separator after them. -/
def items (found : List Word) : List Token → List Word × List Token
  | .word w :: rest => items (found ++ [w]) rest
  | rest => (found, rest)

mutual

/-- Commands up to the end or a token that closes them. -/
def list? : Nat → List Token → Option (Command × List Token)
  | 0, _ => none
  | fuel + 1, tokens =>
    match tokens.dropWhile Token.separates with
    | [] => some (.nothing, [])
    | t :: rest =>
      if t.closes then some (.nothing, t :: rest)
      else do
        let (first, rest) ← chain? fuel (t :: rest)
        match rest with
        | .separator :: rest =>
          let (second, rest) ← list? fuel rest
          return (.sequence first second, rest)
        | [] => return (first, [])
        | t :: rest => if t.closes then return (first, t :: rest) else none

/-- Commands that depend on the success of those before them. -/
def chain? : Nat → List Token → Option (Command × List Token)
  | 0, _ => none
  | fuel + 1, tokens => do
    let (first, rest) ← command? fuel tokens
    links? fuel first rest

/-- What depends on the success of a command. -/
def links? : Nat → Command → List Token → Option (Command × List Token)
  | 0, _, _ => none
  | fuel + 1, first, .andAnd :: rest => do
    let (second, rest) ← command? fuel (rest.dropWhile Token.separates)
    links? fuel (.both first second) rest
  | fuel + 1, first, .orOr :: rest => do
    let (second, rest) ← command? fuel (rest.dropWhile Token.separates)
    links? fuel (.either first second) rest
  | _, first, rest => some (first, rest)

/-- A single command. -/
def command? : Nat → List Token → Option (Command × List Token)
  | 0, _ => none
  | fuel + 1, .openParen :: rest => do
    let (body, rest) ← list? fuel rest
    match rest with
    | .closeParen :: rest => grouped? body rest
    | _ => none
  | fuel + 1, t :: rest =>
    if t.spells "!" then do
      let (c, rest) ← command? fuel rest
      return (.negated c, rest)
    else if t.spells "\x7b" then do
      let (body, rest) ← list? fuel rest
      grouped? body (← expect? "\x7d" rest)
    else if t.spells "if" then do
      let (c, rest) ← choice? fuel rest
      grouped? c rest
    else if t.spells "while" || t.spells "until" then do
      let (test, rest) ← list? fuel rest
      let (body, rest) ← body? fuel rest
      grouped? (.loop (t.spells "until") test body) rest
    else if t.spells "for" then
      match rest with
      | .word name :: keyword :: rest => do
        let name ← plain? name
        if keyword.spells "in" then do
          let (words, rest) := items [] rest
          let (body, rest) ← body? fuel (rest.dropWhile Token.separates)
          grouped? (.each (String.ofList name) words body) rest
        else none
      | _ => none
    else if t.closes then none
    else simple? (t :: rest)
  | _, [] => none

/-- A choice after its first word. -/
def choice? : Nat → List Token → Option (Command × List Token)
  | 0, _ => none
  | fuel + 1, tokens => do
    let (test, rest) ← list? fuel tokens
    let (yes, rest) ← list? fuel (← expect? "then" rest)
    match rest with
    | t :: rest =>
      if t.spells "elif" then do
        let (no, rest) ← choice? fuel rest
        return (.choice test yes no, rest)
      else if t.spells "else" then do
        let (no, rest) ← list? fuel rest
        return (.choice test yes no, ← expect? "fi" rest)
      else if t.spells "fi" then return (.choice test yes .nothing, rest)
      else none
    | [] => none

/-- The body of a loop. -/
def body? : Nat → List Token → Option (Command × List Token)
  | 0, _ => none
  | fuel + 1, tokens => do
    let (body, rest) ← list? fuel (← expect? "do" tokens)
    return (body, ← expect? "done" rest)

end

/-- The command of a script. -/
def read? (text : List Char) : Option Command := do
  let tokens ← tokens? (text.length + 1) text
  let (c, rest) ← list? (4 * tokens.length + 4) tokens
  if rest.isEmpty then return c else none

end LanguageClient.Script
