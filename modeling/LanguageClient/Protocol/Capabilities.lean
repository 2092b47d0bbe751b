import LanguageClient.Json.Basic

/-!
# Capabilities of a server

What the client takes from the capabilities that a server states.
-/

set_option autoImplicit false

namespace LanguageClient

/-- How a server wants to hear of changes to a document. -/
inductive SyncKind where
  /-- Not at all. -/
  | off
  /-- By the full text. -/
  | full
  /-- By what has changed. -/
  | incremental
  deriving DecidableEq, Repr

/-- The kind that a number stands for; any other value means none. -/
def SyncKind.ofJson : Json → SyncKind
  | .int 1 => .full
  | .int 2 => .incremental
  | _ => .off

/-- The name of a kind. -/
def SyncKind.name : SyncKind → String
  | .off => "None"
  | .full => "Full"
  | .incremental => "Incremental"

/-- What a server can do, as far as the client cares. -/
structure Capabilities where
  sync : SyncKind
  openClose : Bool
  hover : Bool
  completion : Bool
  definition : Bool
  deriving DecidableEq, Repr

namespace Capabilities

/-- Whether a provider is there: true, or an object of options. -/
def enabled (capabilities : Json) (key : String) : Bool :=
  match capabilities.get? key with
  | some (.bool b) => b
  | some v => v.isObject
  | none => false

/-- How documents are synchronised, and whether opening and closing is announced. -/
def syncOf (capabilities : Json) : SyncKind × Bool :=
  match capabilities.get? "textDocumentSync" with
  | some (.obj members) =>
    let options := Json.obj members
    (((options.get? "change").map SyncKind.ofJson).getD .off,
      ((options.get? "openClose").bind Json.asBool?).getD false)
  | some kind => (SyncKind.ofJson kind, SyncKind.ofJson kind != .off)
  | none => (.off, false)

/-- Reads the capabilities that a server states. -/
def ofJson (capabilities : Json) : Capabilities where
  sync := (syncOf capabilities).1
  openClose := (syncOf capabilities).2
  hover := enabled capabilities "hoverProvider"
  completion := (capabilities.get? "completionProvider").isSome
  definition := enabled capabilities "definitionProvider"

/-- The capabilities as a text for inspection. -/
def inspect (c : Capabilities) : String :=
  "LspCapabilities \x7b text_document_sync: " ++ c.sync.name ++
    ", open_close: " ++ toString c.openClose ++ ", hover: " ++ toString c.hover ++
    ", completion: " ++ toString c.completion ++
    ", goto_definition: " ++ toString c.definition ++ " \x7d"

end Capabilities

end LanguageClient
