import LanguageClient.Settings.Basic
import LanguageClient.Settings.Error
import LanguageClient.Text.Blank

/-!
# Violations

What can be wrong with settings that read well.  Without a violation every
extension belongs to one language, so every file has at most one server.
-/

set_option autoImplicit false

namespace LanguageClient

/-- Something wrong with settings. -/
inductive Violation where
  /-- Requests would not be waited for. -/
  | noRequestTime
  /-- The server of a language has no command. -/
  | blankCommand (language : String)
  /-- An extension consists of dots. -/
  | emptyExtension (language : String)
  /-- Another language has the extension already. -/
  | sharedExtension (language extension owner : String)
  deriving DecidableEq, Repr

namespace Violation

/-- A violation as an error. -/
def toError : Violation → SettingsError
  | .noRequestTime => .violation "lsp.request_timeout_secs" "must be at least 1"
  | .blankCommand language =>
    .violation ("lsp.servers." ++ language ++ ".command") "must not be empty"
  | .emptyExtension language =>
    .violation ("lsp.servers." ++ language ++ ".extensions") "extensions must not be empty"
  | .sharedExtension language extension owner =>
    .violation ("lsp.servers." ++ language ++ ".extensions")
      ("'" ++ extension ++ "' is already handled by " ++ owner)

end Violation

namespace Settings

/-- Extensions and the languages that have them. -/
abbrev Owners := Entries String

/-- Goes over the extensions of a language: those that are new become its own. -/
def extensionViolations (language : String) (owners : Owners) :
    List String → List Violation × Owners
  | [] => ([], owners)
  | extension :: rest =>
    let bare := bareExtension extension
    if bare.isEmpty then
      let (found, owners) := extensionViolations language owners rest
      (.emptyExtension language :: found, owners)
    else match owners.find? bare with
      | some owner =>
        let (found, owners) := extensionViolations language owners rest
        (if owner = language then found else .sharedExtension language bare owner :: found, owners)
      | none => extensionViolations language (owners.put bare language) rest

/-- Whether a command has no character but blanks. -/
def isBlankCommand (command : String) : Bool := command.toList.all Text.isBlank

/-- Goes over the servers in the order of their languages. -/
def serverViolations (owners : Owners) : Entries ServerEntry → List Violation
  | [] => []
  | (language, entry) :: rest =>
    let (found, owners) := extensionViolations language owners entry.extensions
    (if isBlankCommand entry.command then [.blankCommand language] else []) ++ found ++
      serverViolations owners rest

/-- Everything that is wrong with settings. -/
def violations (s : Settings) : List Violation :=
  (if s.lsp.requestTimeout = 0 then [.noRequestTime] else []) ++
    serverViolations [] s.lsp.servers

end Settings

end LanguageClient
