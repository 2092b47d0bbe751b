import LanguageClient.Settings.Basic
import LanguageClient.Toml.Record

/-!
# Settings as TOML

Settings as a table, and the settings that a table describes.  Keys that are left
out have their defaults, and unknown keys are ignored.
-/

set_option autoImplicit false

namespace LanguageClient

open Toml

/-- A list of texts as a value. -/
def textsToToml (texts : List String) : Value := .array (texts.map .string)

namespace LogLevel

/-- The level that a value names: a string, or a table of one key that holds
nothing. -/
def ofToml? : Value → Option LogLevel
  | .string s => ofName? s
  | .table [(name, .table [])] | .table [(name, .array [])] => ofName? name
  | _ => none

end LogLevel

namespace LogSettings

/-- Log settings as a table. -/
def toToml (s : LogSettings) : Value :=
  .table (Entries.ofList (("level", .string s.level.name) ::
    s.file.elim [] fun f => [("file", .string f)]))

/-- The log settings that a value describes. -/
def ofToml? (v : Value) : Option LogSettings := do
  let r ← v.record? 2
  let level ← r.withDefault 0 "level" .info LogLevel.ofToml?
  let file ← r.withDefault 1 "file" none (fun v => v.asString?.map some)
  return { level, file }

end LogSettings

namespace ServerEntry

/-- A server as a table. -/
def toToml (e : ServerEntry) : Value :=
  .table (Entries.ofList [("command", .string e.command), ("args", textsToToml e.args),
    ("extensions", textsToToml e.extensions)])

/-- The server that a value describes. -/
def ofToml? (v : Value) : Option ServerEntry := do
  let r ← v.record? 3
  let command ← r.required 0 "command" Value.asString?
  let args ← r.withDefault 1 "args" [] (Value.list? Value.asString?)
  let extensions ← r.withDefault 2 "extensions" [] (Value.list? Value.asString?)
  return { command, args, extensions }

end ServerEntry

namespace LspSettings

/-- The servers that a value describes. -/
def serversOfToml? : Value → Option (Entries ServerEntry)
  | .table members => members.mapM fun (language, v) => (ServerEntry.ofToml? v).map (language, ·)
  | _ => none

/-- Server settings as a table. -/
def toToml (s : LspSettings) : Value :=
  .table (Entries.ofList [("enabled", .boolean s.enabled),
    ("request_timeout_secs", .integer (Int.ofNat s.requestTimeout)),
    ("shutdown_timeout_secs", .integer (Int.ofNat s.shutdownTimeout)),
    ("servers", .table (s.servers.map fun (language, e) => (language, e.toToml)))])

/-- The server settings that a value describes. -/
def ofToml? (v : Value) : Option LspSettings := do
  let r ← v.record? 4
  let enabled ← r.withDefault 0 "enabled" true Value.asBool?
  let requestTimeout ← r.withDefault 1 "request_timeout_secs" default.requestTimeout Value.asNat?
  let shutdownTimeout ←
    r.withDefault 2 "shutdown_timeout_secs" default.shutdownTimeout Value.asNat?
  let servers ← r.withDefault 3 "servers" defaultServers serversOfToml?
  return { enabled, requestTimeout, shutdownTimeout, servers }

end LspSettings

namespace Settings

/-- Settings as a table. -/
def toToml (s : Settings) : Value :=
  .table (Entries.ofList [("log", s.log.toToml), ("lsp", s.lsp.toToml)])

/-- The settings that a value describes. -/
def ofToml? (v : Value) : Option Settings := do
  let r ← v.record? 2
  let log ← r.withDefault 0 "log" .default LogSettings.ofToml?
  let lsp ← r.withDefault 1 "lsp" .default LspSettings.ofToml?
  return { log, lsp }

end Settings

end LanguageClient
