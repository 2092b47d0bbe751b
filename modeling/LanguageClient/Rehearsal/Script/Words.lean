import LanguageClient.Entries
import LanguageClient.Path.Basic
import LanguageClient.Rehearsal.Script.Printing
import LanguageClient.Rehearsal.Script.Reader

/-!
# Words of running scripts

A running script is a list of tasks with values, streams and a status.  Its words become
fields: quoted pieces as they are, values outside quotes split at blanks.
-/

set_option autoImplicit false

namespace LanguageClient.Script

/-- Where what is written goes. -/
inductive Sink where
  | output
  | complaints
  | nowhere
  | file (path : Path)
  deriving DecidableEq, Repr

/-- Where what is read comes from. -/
inductive Source where
  | input
  | content (bytes : Bytes)
  deriving DecidableEq, Repr

/-- The streams of a command. -/
structure Streams where
  source : Source
  output : Sink
  complaints : Sink
  deriving DecidableEq, Repr

/-- Something that a running script still has to do. -/
inductive Task where
  | run (c : Command)
  /-- A command whose words are known. -/
  | invoke (words : List Bytes)
  | onSuccess (c : Command)
  | onFailure (c : Command)
  | negate
  | choose (yes no : Command)
  /-- A round of a loop, from its test on. -/
  | round (whileFails : Bool) (test body : Command)
  /-- The test of a loop has been run. -/
  | again (whileFails : Bool) (test body : Command)
  | each (name : String) (items : List Bytes) (body : Command)
  | restore (streams : Streams)
  /-- What is read is written, up to the end. -/
  | copy
  /-- So many bytes of what is read are written. -/
  | skim (count : Nat)
  /-- A line is read into a name. -/
  | readLine (name : String) (start : Bytes)
  | sleepUntil (time : Nat)
  /-- The end of a script inside another, with the values outside. -/
  | boundary (values : Entries Bytes) (arguments : List Bytes)
  deriving Repr

/-- A running script. -/
structure Machine where
  tasks : List Task
  streams : Streams
  values : Entries Bytes
  arguments : List Bytes
  status : Nat
  /-- What was written to the script and not yet read. -/
  input : Bytes
  /-- Whether more may be written to it. -/
  inputOpen : Bool
  deriving Repr

namespace Machine

/-- Whether a byte separates fields. -/
def isBlank (b : UInt8) : Bool := b = 32 || b = 9 || b = 10

/-- The fields between blanks. -/
def splitFields (start : Bytes) : Bytes → List Bytes
  | [] => if start = [] then [] else [start]
  | b :: rest =>
    if isBlank b then (if start = [] then [] else [start]) ++ splitFields [] rest
    else splitFields (start ++ [b]) rest

/-- The value of a name or special parameter. -/
def value (m : Machine) (name : String) : Bytes :=
  match name.toList with
  | ['?'] => Utf8.encode (toString m.status)
  | ['#'] => Utf8.encode (toString m.arguments.length)
  | ['@'] | ['*'] => Printing.spaced m.arguments
  | [c] =>
    if Number.isDigit c then
      if c = '0' then Utf8.encode "sh" else (m.arguments[c.toNat - 49]?).getD []
    else (m.values.find? name).getD []
  | '#' :: measured =>
    Utf8.encode (toString ((m.values.find? (String.ofList measured)).getD []).length)
  | _ => (m.values.find? name).getD []

/-- The integer that a name stands for. -/
def integer (m : Machine) (name : String) : Int :=
  Arithmetic.intOf (Utf8.decodeLossy (m.value name)).toList

/-- Fields that are being put together. -/
structure Fields where
  done : List Bytes
  current : Option Bytes

/-- Adds bytes to the current field. -/
def Fields.add (f : Fields) (bytes : Bytes) : Fields :=
  { f with current := some (f.current.getD [] ++ bytes) }

/-- Adds fields: the first one to the current field, each other one as a new field. -/
def Fields.addAll (f : Fields) : List Bytes → Fields
  | [] => f
  | first :: rest =>
    rest.foldl (fun f bytes => ⟨f.done ++ f.current.toList, some bytes⟩) (f.add first)

/-- Adds the bytes of a value. -/
def Fields.addValue (f : Fields) (bytes : Bytes) (quoted : Bool) : Fields :=
  if quoted then f.add bytes else f.addAll (splitFields [] bytes)

/-- Adds a piece of a word. -/
def addPiece (m : Machine) (f : Fields) : Piece → Fields
  | .text cs _ => f.add (Utf8.encode (String.ofList cs))
  | .value name quoted =>
    if name = "@" ∧ quoted then f.addAll m.arguments else f.addValue (m.value name) quoted
  | .sum e quoted =>
    f.addValue (Utf8.encode (toString ((Arithmetic.evaluate? m.integer e).getD 0))) quoted

/-- The fields of a word. -/
def expand (m : Machine) (w : Word) : List Bytes :=
  let f := w.foldl m.addPiece ⟨[], none⟩
  f.done ++ f.current.toList

/-- A word as a single field. -/
def expandOne (m : Machine) (w : Word) : Bytes := Printing.spaced (m.expand w)

end Machine

end LanguageClient.Script
