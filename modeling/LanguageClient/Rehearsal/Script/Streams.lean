import LanguageClient.Files.Tree
import LanguageClient.Rehearsal.Script.Words

/-!
# Streams of running scripts

Redirections change where a command reads and writes; what is written goes to the
surroundings, to a file, or nowhere.
-/

set_option autoImplicit false

namespace LanguageClient.Script

/-- What a step of a script does to those around it. -/
inductive Effect where
  | wrote (bytes : Bytes)
  | complained (bytes : Bytes)
  | closedOutput
  | closedInput
  deriving DecidableEq, Repr

namespace Machine

/-- The path of a field. -/
def pathOf (field : Bytes) : Path := ⟨field⟩

/-- The sink of a path; a plain file is emptied or kept for adding. -/
def openSink (t : FileTree) (field : Bytes) (keep : Bool) : Except IoError (Sink × FileTree) :=
  match Utf8.decodeLossy field with
  | "/dev/null" => .ok (.nowhere, t)
  | "/dev/stdout" => .ok (.output, t)
  | "/dev/stderr" => .ok (.complaints, t)
  | _ => do
    let t ← if keep then t.append (pathOf field) .empty else t.write (pathOf field) .empty
    return (.file (pathOf field), t)

/-- The source of a path. -/
def openSource (t : FileTree) (field : Bytes) : Except IoError Source :=
  match Utf8.decodeLossy field with
  | "/dev/null" => .ok (.content [])
  | "/dev/stdin" => .ok .input
  | _ => do return .content (← t.read (pathOf field)).toList

/-- The sink of the stream with a number. -/
def Streams.sink (s : Streams) (stream : Nat) : Sink :=
  if stream = 2 then s.complaints else s.output

/-- Sets the sink of the stream with a number. -/
def Streams.setSink (s : Streams) (stream : Nat) (sink : Sink) : Streams :=
  if stream = 1 then { s with output := sink }
  else if stream = 2 then { s with complaints := sink }
  else s

/-- Streams after a redirection. -/
def redirect (m : Machine) (state : Streams × FileTree) (r : Redirect) :
    Except IoError (Streams × FileTree) :=
  let (s, t) := state
  let toFile (w : Word) (keep : Bool) : Except IoError (Streams × FileTree) := do
    let (sink, t) ← openSink t (m.expandOne w) keep
    return (Streams.setSink s r.stream sink, t)
  match r.target with
  | .writeTo w => toFile w false
  | .appendTo w => toFile w true
  | .readFrom w => do return ({ s with source := ← openSource t (m.expandOne w) }, t)
  | .stream n =>
    if r.stream = 0 then .ok (s, t) else .ok (Streams.setSink s r.stream (Streams.sink s n), t)
  | .closed =>
    if r.stream = 0 then .ok ({ s with source := .content [] }, t)
    else .ok (Streams.setSink s r.stream .nowhere, t)

/-- Streams after redirections. -/
def redirectAll (m : Machine) (t : FileTree) (rs : List Redirect) :
    Except IoError (Streams × FileTree) :=
  rs.foldlM m.redirect (m.streams, t)

/-- Writes bytes to a sink. -/
def emit (t : FileTree) (sink : Sink) (bytes : Bytes) : FileTree × List Effect :=
  match sink with
  | .output => (t, if bytes = [] then [] else [.wrote bytes])
  | .complaints => (t, if bytes = [] then [] else [.complained bytes])
  | .nowhere => (t, [])
  | .file p =>
    match t.append p ⟨bytes.toArray⟩ with
    | .ok t => (t, [])
    | .error _ => (t, [])

/-- What can be read now, and whether there may be more later. -/
def readable (m : Machine) : Bytes × Bool :=
  match m.streams.source with
  | .input => (m.input, m.inputOpen)
  | .content bytes => (bytes, false)

/-- Takes so many bytes of what can be read. -/
def consume (m : Machine) (count : Nat) : Machine :=
  match m.streams.source with
  | .input => { m with input := m.input.drop count }
  | .content bytes => { m with streams := { m.streams with source := .content (bytes.drop count) } }

end Machine

end LanguageClient.Script
