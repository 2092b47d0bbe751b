import LanguageClient.Entries
import LanguageClient.Log.Record
import LanguageClient.Path.Basic

/-!
# Settings

What a user can set: how the client logs, and which servers it starts for which
files.  Servers are kept in the order of their languages.
-/

set_option autoImplicit false

namespace LanguageClient

/-- How the client logs. -/
structure LogSettings where
  level : LogLevel
  /-- The log file; the standard one when nothing is set. -/
  file : Option String
  deriving DecidableEq, Repr

/-- How the server of a language is started, and which files it handles. -/
structure ServerEntry where
  command : String
  args : List String
  /-- File extensions, with or without dots in front. -/
  extensions : List String
  deriving DecidableEq, Repr

/-- What the client does with language servers. -/
structure LspSettings where
  /-- Whether servers are used at all. -/
  enabled : Bool
  /-- How many seconds a request may wait for its response. -/
  requestTimeout : Nat
  /-- How many seconds a server gets to exit before it is killed. -/
  shutdownTimeout : Nat
  /-- The servers by language. -/
  servers : Entries ServerEntry
  deriving DecidableEq, Repr

/-- All settings. -/
structure Settings where
  log : LogSettings
  lsp : LspSettings
  deriving DecidableEq, Repr

/-- An extension without the dots in front of it. -/
def bareExtension (extension : String) : String :=
  String.ofList (extension.toList.dropWhile (· = '.'))

namespace ServerEntry

/-- Whether the server handles files with an extension. -/
def handles (entry : ServerEntry) (extension : String) : Bool :=
  entry.extensions.any fun e => bareExtension e == bareExtension extension

end ServerEntry

namespace LspSettings

/-- The servers that need no settings. -/
def defaultServers : Entries ServerEntry :=
  [("python", ⟨"pylsp", [], ["py", "pyi"]⟩), ("rust", ⟨"rust-analyzer", [], ["rs"]⟩)]

/-- What holds when nothing is set. -/
def default : LspSettings := ⟨true, 10, 5, defaultServers⟩

/-- The language of the first server that handles the extension of a path. -/
def languageFor (s : LspSettings) (path : Path) : Option String := do
  let extension ← Utf8.decode? (← path.extension?)
  let (language, _) ← List.find? (fun e => e.2.handles extension) s.servers
  return language

/-- How many milliseconds a request may wait. -/
def requestLimit (s : LspSettings) : Nat := s.requestTimeout * 1000

/-- How many milliseconds a server gets to exit. -/
def exitLimit (s : LspSettings) : Nat := s.shutdownTimeout * 1000

end LspSettings

/-- What holds for the log when nothing is set. -/
def LogSettings.default : LogSettings := ⟨.info, none⟩

/-- The settings when nothing is set. -/
def Settings.default : Settings := ⟨.default, .default⟩

end LanguageClient
