import LanguageClient.Rehearsal.Script.Machine
import LanguageClient.Session.Step
import LanguageClient.Workspace.Launching

/-!
# Programs

In a rehearsal, servers are programs that run scripts or do one small thing.  A program
is found by its name or by its path; its turn comes when it can read or wake up, and what
it does are steps of the session that it serves.
-/

set_option autoImplicit false

namespace LanguageClient

open Script (Machine)

namespace Program

/-- The names of the programs that there are. -/
def names : List String :=
  ["sh", "bash", "dash", "cat", "head", "true", "false", "sleep", "touch", "echo", "printf",
    "test", "[", "rm", "mkdir"]

/-- The folders in which they lie. -/
def folders : List String := ["/bin/", "/usr/bin/"]

/-- The name of the program at a path. -/
def named? (path : String) : Option String :=
  names.find? fun name => folders.any fun folder => folder ++ name == path

/-- The name of the program that a command starts. -/
def find (t : FileTree) (command : String) : Except IoError String :=
  if command.toList.contains '/' then
    match named? command with
    | some name => .ok name
    | none =>
      match t.stat (Path.ofString command) with
      | .error e => .error e
      | .ok _ => .error .permissionDenied
  else if command = "." ∨ command = ".." then .error .permissionDenied
  else if FileTree.maxName < (Utf8.encode command).length then .error .nameTooLong
  else if names.contains command then .ok command
  else .error .notFound

/-- Starts the program of a command. -/
def start (t : FileTree) (c : ServerCommand) : Except IoError Machine :=
  if (c.command :: c.arguments).any fun text => text.toList.contains '\x00' then
    .error .nulInArgument
  else do
    let name ← find t c.command
    return .start ((name :: c.arguments).map Utf8.encode)

/-- The step of a session that an effect of its program is. -/
def action : Script.Effect → Session.Action
  | .wrote bytes => .serverWrites bytes
  | .complained bytes => .serverComplains bytes
  | .closedOutput => .serverCloses
  | .closedInput => .serverStopsReading

/-- The steps of a session when its program has ended. -/
def ending : List Session.Action :=
  [.serverStopsReading, .serverCloses, .serverEndsComplaints, .processExits]

/-- How many steps a program takes in one turn at most. -/
def turnLength : Nat := 1000000

/-- The turn of a program: it reads what was written to it and goes on as far as it can,
unless it is killed. -/
def turn (clock : Nat) (killed : Bool) (input : Bytes) (m : Machine) (t : FileTree) :
    Option Machine × FileTree × List Session.Action :=
  if killed then (none, t, ending)
  else
    let (m, t, effects) := (m.feed input).perform clock turnLength t
    let actions := effects.map action
    (m, t, if m.isNone then actions ++ ending else actions)

end Program

end LanguageClient
