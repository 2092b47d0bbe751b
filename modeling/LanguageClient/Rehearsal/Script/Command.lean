/-!
# Commands of scripts

What a shell script consists of, as far as scripts for rehearsals need it: words with
quotes and values in them, simple commands with redirections, and the ways to combine
commands.
-/

set_option autoImplicit false

namespace LanguageClient.Script

/-- A part of a word. -/
inductive Piece where
  | text (chars : List Char) (quoted : Bool)
  /-- The value of a name, or of a special parameter. -/
  | value (name : String) (quoted : Bool)
  /-- The value of an arithmetic expression. -/
  | sum (expression : List Char) (quoted : Bool)
  deriving DecidableEq, Repr

/-- A word: its pieces, side by side. -/
abbrev Word := List Piece

/-- What a stream is redirected to. -/
inductive Target where
  | readFrom (word : Word)
  | writeTo (word : Word)
  | appendTo (word : Word)
  /-- Another stream, by its number. -/
  | stream (number : Nat)
  | closed
  deriving DecidableEq, Repr

/-- A redirection of the stream with a number. -/
structure Redirect where
  stream : Nat
  target : Target
  deriving DecidableEq, Repr

/-- A command. -/
inductive Command where
  | nothing
  | simple (assignments : List (String × Word)) (words : List Word) (redirects : List Redirect)
  | sequence (first second : Command)
  /-- The second only after the first has succeeded. -/
  | both (first second : Command)
  /-- The second only after the first has failed. -/
  | either (first second : Command)
  | negated (command : Command)
  | choice (test yes no : Command)
  /-- The body as long as the test succeeds, or as long as it fails. -/
  | loop (whileFails : Bool) (test body : Command)
  | each (name : String) (items : List Word) (body : Command)
  | group (body : Command) (redirects : List Redirect)
  deriving Repr

end LanguageClient.Script
