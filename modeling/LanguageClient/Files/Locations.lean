import LanguageClient.Files.IoError
import LanguageClient.Path.Basic

/-!
# Standard locations

Where the client keeps its settings and its log.  An absolute path in the
environment wins over the conventional place under the home directory.
-/

set_option autoImplicit false

namespace LanguageClient

/-- A failure to find or prepare the files of the client. -/
inductive SetupError where
  /-- No place is known for settings or data. -/
  | location (detail : String)
  /-- The log file cannot be opened. -/
  | logFile (path : Path) (error : IoError)
  | io (error : IoError)
  deriving DecidableEq, Repr

/-- The text shown for a failure. -/
def SetupError.message : SetupError → String
  | .location detail => "path error: " ++ detail
  | .logFile path e => "cannot open log file " ++ path.display ++ ": " ++ e.message
  | .io e => "I/O error: " ++ e.message

/-- The folders under which the client has its own. -/
structure Locations where
  configBase : Path
  dataBase : Path
  deriving DecidableEq, Repr

namespace Locations

/-- The name of the client's own folders. -/
def ownFolder : String := "vicode"

/-- Both folders under one root. -/
def under (root : Path) : Locations :=
  ⟨root.child "config", root.child "data"⟩

/-- An absolute path from the environment. -/
def absolute? (p : Option Path) : Option Path :=
  p.filter Path.isAbsolute

/-- The home directory: an empty one in the environment does not count, and the
account's stands in for it. -/
def home? (home account : Option Path) : Option Path :=
  (home.filter fun p => !p.bytes.isEmpty) <|> account

/-- The folders of an environment. -/
def ofEnvironment (home configHome dataHome account : Option Path) :
    Except SetupError Locations :=
  let home := home? home account
  match absolute? configHome <|> home.map (·.child ".config"),
    absolute? dataHome <|> home.map (·.child ".local/share") with
  | some configBase, some dataBase => .ok ⟨configBase, dataBase⟩
  | _, _ => .error (.location "could not determine config or data directory")

/-- The folder of the settings. -/
def configDir (l : Locations) : Path := l.configBase.child ownFolder

/-- The folder of the data. -/
def dataDir (l : Locations) : Path := l.dataBase.child ownFolder

/-- The folder of the logs. -/
def logDir (l : Locations) : Path := l.dataDir.child "logs"

/-- The log file unless the settings name another. -/
def logFile (l : Locations) : Path := l.logDir.child "vicode.log"

end Locations

end LanguageClient
