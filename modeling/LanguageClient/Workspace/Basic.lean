import LanguageClient.Entries
import LanguageClient.Files.Tree
import LanguageClient.Workspace.Lane

/-!
# Workspaces

A workspace has one lane per language, opened when the first document of the language
is activated.  Leaving the workspace shuts the lanes down one after the other, in the
order of the languages.  Lanes are numbered as they are opened; those that were left
stay, for what their servers may still send.
-/

set_option autoImplicit false

namespace LanguageClient

/-- A server that has just been started. -/
structure Server where
  /-- How long a request waits for its response. -/
  limit : Nat
  /-- The process of the server, if there is one. -/
  process : Option Nat
  deriving DecidableEq, Repr

/-- Starts the server of a language. -/
abbrev Launcher := String → Except ClientError Server

/-- A workspace that is being left. -/
structure Departure where
  /-- How long each server may take to exit. -/
  grace : Nat
  /-- The lanes that are still to be shut down, in order. -/
  rest : List Nat
  deriving DecidableEq, Repr

/-- One lane per language. -/
structure Workspace where
  /-- The folder that servers are told to work in. -/
  rootUri : Option String
  /-- The process of the client, of which servers are told. -/
  processId : Nat
  /-- The folder from which relative paths are seen. -/
  folder : Path
  clock : Nat
  /-- All lanes so far, by their numbers. -/
  lanes : List Lane
  /-- The number of the lane of each language. -/
  registered : Entries Nat
  leaving : Option Departure
  deriving DecidableEq

namespace Workspace

/-- What a workspace lets be seen. -/
inductive Event where
  /-- A lane was opened. -/
  | opened (number : Nat) (language : String)
  /-- Something was seen in a lane. -/
  | inLane (number : Nat) (sighting : Sighting)
  deriving DecidableEq

/-- A workspace after a step, and what the step let be seen. -/
abbrev Moved := Workspace × List Event

/-- A workspace in which nothing is activated yet. -/
def create (processId : Nat) (folder : Path) : Workspace :=
  ⟨none, processId, folder, 0, [], [], none⟩

/-- Roots a workspace at a folder, or at the folder of a file. -/
def rootAt (w : Workspace) (t : FileTree) (path : Path) : Except ClientError Workspace := do
  let folder := if t.isFile path then path.parent?.getD path else path
  let uri ← Uri.ofPathIn w.folder folder
  return { w with rootUri := some uri }

/-- The lane of a language. -/
def lane? (w : Workspace) (language : String) : Option Lane :=
  (w.registered.find? language).bind (w.lanes[·]?)

/-- The active document of a language. -/
def active? (w : Workspace) (language : String) : Option Path :=
  (w.lane? language).bind Lane.active

/-- The languages that have a lane. -/
def languages (w : Workspace) : List String := w.registered.keys

/-- A text that shows the state of a workspace. -/
def inspect (w : Workspace) : String :=
  "Workspace \x7b root_uri: " ++
    w.rootUri.elim "None" (fun u => "Some(" ++ Text.inspect u ++ ")") ++
    ", languages: " ++ Text.inspectList w.languages ++ " \x7d"

/-! ## Activation -/

/-- Puts a lane in the place of the one with its number. -/
def setLane (w : Workspace) (number : Nat) (l : Lane) : Workspace :=
  { w with lanes := w.lanes.set number l }

/-- What the handshake tells a server. -/
def greeting (w : Workspace) : InitializeParams := .ofClient w.processId w.rootUri

/-- Opens the lane of a language. -/
def openLane (w : Workspace) (language : String) (server : Server) : Workspace :=
  let session := Session.launch language server.limit server.process w.clock
  { w with
    lanes := w.lanes ++ [.start session w.greeting w.folder]
    registered := w.registered.put language w.lanes.length }

/-- A document becomes the active one in the lane with a number. -/
def activateIn (w : Workspace) (number : Nat) (path : Path) (text : String) :
    Moved × Lane.Queued :=
  match w.lanes[number]? with
  | none => ((w, []), .ok none)
  | some l =>
    let (l, queued) := l.activate path text
    ((w.setLane number l, (Lane.remarks queued).map (.inLane number)), queued)

/-- A document becomes the active one of its language, whose server is started for the
first one.  A server that does not start leaves no trace. -/
def activate (launcher : Launcher) (w : Workspace) (language : String) (path : Path)
    (text : String) : Moved × Lane.Queued :=
  match w.registered.find? language with
  | some number => w.activateIn number path text
  | none =>
    match launcher language with
    | .error e => ((w, []), .error e)
    | .ok server =>
      let number := w.lanes.length
      let ((w, seen), queued) := (w.openLane language server).activateIn number path text
      ((w, .opened number language :: seen), queued)

end Workspace

end LanguageClient
