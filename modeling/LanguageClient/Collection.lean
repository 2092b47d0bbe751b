import LanguageClient.CommandLine
import LanguageClient.Manager
import LanguageClient.Workspace.Launching

/-!
# Collecting diagnostics

A collection asks the servers about a list of files.  It hands the readable ones to a
manager, in order, then listens until nothing has been told for a while, and then has
every server shut down.  What it has at the end is a store of diagnostics and the lines
of complaint.
-/

set_option autoImplicit false

namespace LanguageClient

namespace Collection

/-- Where a collection stands. -/
inductive Stage where
  /-- Documents are handed to the manager. -/
  | feeding
  /-- What is told is taken in, until it has been quiet up to a time. -/
  | listening (deadline : Nat)
  /-- The manager shuts the servers down. -/
  | leaving
  | done
  deriving DecidableEq, Repr

/-- How many commands a manager lets wait. -/
def capacity : Nat := 64

/-- How many milliseconds it must be quiet before the end. -/
def settlePeriod : Nat := 3000

/-- A line of complaint. -/
def complaint (text : String) : String := "vicode: " ++ text

/-- What becomes of a file: a command for the manager, a complaint, or nothing when no
server handles it. -/
def document (s : LspSettings) (t : FileTree) (path : Path) :
    Option (Except String Manager.Command) :=
  (s.languageFor path).map fun language =>
    match t.readText path with
    | .ok text => .ok (.activate language path text)
    | .error e => .error (complaint (path.display ++ ": " ++ e.message))

/-- The command of a document that can be handed on. -/
def command? : Except String Manager.Command → Option Manager.Command
  | .ok c => some c
  | .error _ => none

/-- The complaint about a document that cannot. -/
def complaint? : Except String Manager.Command → Option String
  | .ok _ => none
  | .error text => some text

end Collection

/-- A collection at one moment. -/
structure Collection where
  manager : Manager
  /-- The commands that are still to be handed to the manager. -/
  feed : List Manager.Command
  /-- What the manager has told and nobody has taken in yet. -/
  inbox : List Manager.Event
  store : Diagnostics.Store
  complaints : List String
  /-- How long each server may take to exit. -/
  grace : Nat
  stage : Collection.Stage
  deriving DecidableEq

namespace Collection

/-- A collection after a step, and what the step let be seen. -/
abbrev Moved := Collection × List Manager.Event

/-- The start of a collection over files, in a workspace. -/
def start (s : LspSettings) (t : FileTree) (w : Workspace) (files : List Path) : Collection :=
  let documents := files.filterMap (document s t)
  { manager := .start w
    feed := documents.filterMap command?
    inbox := []
    store := .empty
    complaints := documents.filterMap complaint?
    grace := s.exitLimit
    stage := .feeding }

/-- The present time. -/
def clock (c : Collection) : Nat := c.manager.workspace.clock

/-- Whether something that a manager lets be seen is told to the collection. -/
def isTold : Manager.Event → Bool
  | .activated .. | .failed .. | .inWorkspace (.inLane _ (.published _)) => true
  | .shutDown | .inWorkspace _ => false

/-- Takes in something that was told. -/
def takeIn (c : Collection) : Manager.Event → Collection
  | .inWorkspace (.inLane _ (.published p)) => { c with store := (c.store.apply p).1 }
  | .failed path e =>
    { c with complaints := c.complaints ++ [complaint (Manager.failureText path e)] }
  | _ => c

/-- Starts to listen anew. -/
def listen (c : Collection) : Collection :=
  { c with stage := .listening (c.clock + settlePeriod) }

/-- Hands a command to the manager, if there is room for it. -/
def hand (c : Collection) (command : Manager.Command) : Option Collection :=
  if c.manager.queue.length < capacity then
    some { c with manager := (c.manager.send command).1 }
  else none

/-- The next step of the collection's own, if there is one. -/
def goOn? (c : Collection) : Option Collection :=
  match c.stage with
  | .feeding =>
    match c.feed with
    | [] => some c.listen
    | command :: rest => ({ c with feed := rest } : Collection).hand command
  | .listening deadline =>
    match c.inbox with
    | e :: rest => some ({ c with inbox := rest }.takeIn e).listen
    | [] =>
      if deadline ≤ c.clock then
        ({ c with stage := .leaving } : Collection).hand (.shutdown c.grace)
      else none
  | .leaving => if c.manager.stage = .ended then some { c with stage := .done } else none
  | .done => none

/-- The manager takes a step. -/
def stepManager (launcher : Launcher) (c : Collection) (a : Manager.Action) : Moved :=
  let (m, seen) := c.manager.step launcher a
  ({ c with manager := m, inbox := c.inbox ++ seen.filter isTold }, seen)

/-! ## Runs -/

/-- A step of a collection. -/
inductive Action where
  /-- A step of the collection's own. -/
  | goOn
  | manager (a : Manager.Action)
  deriving DecidableEq, Repr

/-- One step. -/
def step (launcher : Launcher) (c : Collection) : Action → Moved
  | .goOn => (c.goOn?.getD c, [])
  | .manager a => c.stepManager launcher a

/-- All steps of a schedule. -/
def run (launcher : Launcher) (c : Collection) : List Action → Moved
  | [] => (c, [])
  | a :: rest =>
    let (c, seen) := c.step launcher a
    let (c, more) := c.run launcher rest
    (c, seen ++ more)

/-- The next step that the collection can take by itself. -/
def next? (c : Collection) : Option Action :=
  if c.goOn?.isSome then some .goOn else c.manager.next?.map .manager

/-- More steps than the collection can take by itself. -/
def work (c : Collection) : Nat :=
  c.manager.work + 1024 * (c.feed.length + c.inbox.length + 2)

/-- Takes at most so many steps. -/
def settleWithin (launcher : Launcher) : Nat → Collection → Moved
  | 0, c => (c, [])
  | fuel + 1, c =>
    match c.next? with
    | none => (c, [])
    | some a =>
      let (c, seen) := c.step launcher a
      let (c, more) := settleWithin launcher fuel c
      (c, seen ++ more)

/-- The collection at rest. -/
def settle (launcher : Launcher) (c : Collection) : Moved := settleWithin launcher c.work c

/-- The earliest time to come at which something would be given up. -/
def nextDeadline? (c : Collection) : Option Nat :=
  let own := match c.stage with
    | .listening deadline => [deadline]
    | _ => []
  (own ++ c.manager.workspace.nextDeadline?.toList).min?

/-- What a collection reports. -/
def report (c : Collection) : CommandLine.Report := ⟨c.store, c.complaints⟩

end Collection

end LanguageClient
