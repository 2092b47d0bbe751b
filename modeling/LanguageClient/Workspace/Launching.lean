import LanguageClient.Settings.Basic
import LanguageClient.Workspace.Basic

/-!
# Launching servers

The servers that can be launched are known by language, each by the command that
starts it.  Whether a command starts anything is for the machine to say.
-/

set_option autoImplicit false

namespace LanguageClient

/-- How a server is started. -/
structure ServerCommand where
  command : String
  arguments : List String
  /-- How many milliseconds a request waits for its response. -/
  limit : Nat
  deriving DecidableEq, Repr

namespace ServerCommand

/-- How long requests wait unless something else is said. -/
def defaultLimit : Nat := 10000

/-- The servers of the settings. -/
def ofSettings (s : LspSettings) : Entries ServerCommand :=
  s.servers.map fun (language, entry) =>
    (language, ⟨entry.command, entry.args, s.requestLimit⟩)

/-- Launches the servers of a list; `start` gives the process of a command. -/
def launcher (servers : Entries ServerCommand)
    (start : ServerCommand → Except IoError Nat) : Launcher := fun language =>
  match servers.find? language with
  | none => .error (.noServer language)
  | some c =>
    match start c with
    | .error e => .error (.spawnFailed (c.command ++ ": " ++ e.message))
    | .ok process => .ok ⟨c.limit, some process⟩

end ServerCommand

end LanguageClient
