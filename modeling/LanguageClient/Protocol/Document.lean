import LanguageClient.Protocol.Diagnostic

/-!
# Documents

The values by which documents are opened and closed at a server.
-/

set_option autoImplicit false

namespace LanguageClient

/-- A document with its full text, as it is handed to a server. -/
structure Document where
  uri : String
  language : String
  version : Int
  text : String
  deriving DecidableEq, Repr

namespace Document

/-- A document as JSON. -/
def toJson (d : Document) : Json :=
  Json.ofMembers [("uri", .str d.uri), ("languageId", .str d.language),
    ("version", .int d.version), ("text", .str d.text)]

/-- The document that a value is. -/
def ofJson? (v : Json) : Option Document := do
  let r ← v.record? 4
  let uri ← r.required 0 "uri" Json.asString?
  let language ← r.required 1 "languageId" Json.asString?
  let version ← r.required 2 "version" Json.int32?
  let text ← r.required 3 "text" Json.asString?
  return { uri, language, version, text }

end Document

/-- A document named by its URI alone. -/
structure DocumentName where
  uri : String
  deriving DecidableEq, Repr

namespace DocumentName

/-- A document's name as JSON. -/
def toJson (n : DocumentName) : Json :=
  Json.ofMembers [("uri", .str n.uri)]

/-- The name that a value is. -/
def ofJson? (v : Json) : Option DocumentName := do
  let r ← v.record? 1
  let uri ← r.required 0 "uri" Json.asString?
  return { uri }

end DocumentName

/-- The parameters of a notification about one document. -/
def aboutDocument (document : Json) : Json :=
  Json.ofMembers [("textDocument", document)]

/-- The document that the parameters of an opening are about. -/
def openedDocument? (v : Json) : Option Document := do
  let r ← v.record? 1
  r.required 0 "textDocument" Document.ofJson?

/-- The document that the parameters of a closing are about. -/
def closedDocument? (v : Json) : Option DocumentName := do
  let r ← v.record? 1
  r.required 0 "textDocument" DocumentName.ofJson?

end LanguageClient
