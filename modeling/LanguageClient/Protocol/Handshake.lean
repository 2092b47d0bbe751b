import LanguageClient.Protocol.Diagnostic

/-!
# The handshake

What client and server tell about themselves when a session begins.
-/

set_option autoImplicit false

namespace LanguageClient

/-- The name and version of a program. -/
structure ProgramInfo where
  name : String
  version : Option String
  deriving DecidableEq, Repr

namespace ProgramInfo

/-- A program's name and version as JSON. -/
def toJson (p : ProgramInfo) : Json :=
  Json.ofPresent [("name", some (.str p.name)), ("version", p.version.map .str)]

/-- The name and version that a value is. -/
def ofJson? (v : Json) : Option ProgramInfo := do
  let r ← v.record? 2
  let name ← r.required 0 "name" Json.asString?
  let version ← r.optional 1 "version" Json.asString?
  return { name, version }

/-- This client. -/
def client : ProgramInfo := ⟨"vicode", some "0.1.0"⟩

end ProgramInfo

/-- What the client can do. -/
def clientCapabilities : Json :=
  let off (keys : List String) : Json := Json.ofMembers (keys.map (·, .bool false))
  Json.ofMembers [
    ("textDocument", Json.ofMembers [
      ("synchronization",
        off ["dynamicRegistration", "willSave", "willSaveWaitUntil", "didSave"]),
      ("publishDiagnostics", Json.ofMembers [
        ("relatedInformation", .bool false), ("versionSupport", .bool true)])]),
    ("workspace", off ["workspaceFolders", "configuration"])]

/-- The parameters of the handshake. -/
structure InitializeParams where
  processId : Option Nat
  rootUri : Option String
  capabilities : Json
  clientInfo : Option ProgramInfo
  deriving DecidableEq, Repr

namespace InitializeParams

/-- The parameters as JSON; an unknown process or root is null. -/
def toJson (p : InitializeParams) : Json :=
  Json.ofPresent [
    ("processId", some (p.processId.elim .null fun n => .int (Int.ofNat n))),
    ("rootUri", some (p.rootUri.elim .null .str)), ("capabilities", some p.capabilities),
    ("clientInfo", p.clientInfo.map ProgramInfo.toJson)]

/-- The parameters that a value is. -/
def ofJson? (v : Json) : Option InitializeParams := do
  let r ← v.record? 4
  let processId ← r.optionalMember 0 "processId" natural32?
  let rootUri ← r.optionalMember 1 "rootUri" Json.asString?
  let capabilities ← r.required 2 "capabilities" some
  let clientInfo ← r.optional 3 "clientInfo" ProgramInfo.ofJson?
  return { processId, rootUri, capabilities, clientInfo }

/-- The parameters of this client, run by a process and rooted at a folder. -/
def ofClient (processId : Nat) (rootUri : Option String) : InitializeParams :=
  ⟨some processId, rootUri, clientCapabilities, some ProgramInfo.client⟩

end InitializeParams

/-- The result of the handshake. -/
structure InitializeResult where
  capabilities : Json
  serverInfo : Option ProgramInfo
  deriving DecidableEq, Repr

namespace InitializeResult

/-- The result as JSON. -/
def toJson (r : InitializeResult) : Json :=
  Json.ofPresent [("capabilities", some r.capabilities),
    ("serverInfo", r.serverInfo.map ProgramInfo.toJson)]

/-- The result that a value is; capabilities that are left out are null. -/
def ofJson? (v : Json) : Option InitializeResult := do
  let r ← v.record? 2
  let capabilities := (r.get? 0 "capabilities").getD .null
  let serverInfo ← r.optional 1 "serverInfo" ProgramInfo.ofJson?
  return { capabilities, serverInfo }

end InitializeResult

end LanguageClient
