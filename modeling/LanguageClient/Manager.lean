import LanguageClient.Workspace.Step

/-!
# The manager of a workspace

A manager owns a workspace and takes commands from a queue, one after the other, until
it is told to shut down or no command can come any more; in both cases every server is
shut down before it ends.  A failed activation is told and does not stop later ones.
-/

set_option autoImplicit false

namespace LanguageClient

namespace Manager

/-- What a manager is told to do. -/
inductive Command where
  /-- Make a document the active one of its language. -/
  | activate (language : String) (path : Path) (text : String)
  /-- Shut every server down, giving each so many milliseconds, and end. -/
  | shutdown (grace : Nat)
  deriving DecidableEq, Repr

/-- Where a manager stands. -/
inductive Stage where
  | running
  /-- The servers are shut down; the end is told if somebody has asked for it. -/
  | leaving (asked : Bool)
  | ended
  deriving DecidableEq, Repr

/-- What a manager lets be seen. -/
inductive Event where
  /-- A switch to a document was queued with this version. -/
  | activated (path : Path) (version : Int)
  /-- A document could not be activated. -/
  | failed (path : Path) (error : ClientError)
  /-- The shutdown that was asked for is complete. -/
  | shutDown
  /-- Something was seen in the workspace. -/
  | inWorkspace (event : Workspace.Event)
  deriving DecidableEq

/-- The text by which a failed activation is told. -/
def failureText (path : Path) (e : ClientError) : String := path.display ++ ": " ++ e.message

/-- What is logged about a failed activation. -/
def failureRecord (e : ClientError) : LogRecord := .warn ("activation failed: " ++ e.message)

end Manager

/-- A manager with its workspace and the commands that wait. -/
structure Manager where
  workspace : Workspace
  queue : List Manager.Command
  /-- Whether commands can still come. -/
  accepting : Bool
  stage : Manager.Stage
  deriving DecidableEq

namespace Manager

/-- A manager after a step, and what the step let be seen. -/
abbrev Moved := Manager × List Event

/-- A manager of a workspace before its first command. -/
def start (w : Workspace) : Manager := ⟨w, [], true, .running⟩

/-- Puts a command into the queue; tells whether it was taken. -/
def send (m : Manager) (c : Command) : Manager × Bool :=
  if m.accepting && m.stage != .ended then ({ m with queue := m.queue ++ [c] }, true)
  else (m, false)

/-- No command can come any more. -/
def close (m : Manager) : Manager := { m with accepting := false }

/-- What is told about the outcome of an activation. -/
def tell (path : Path) : Lane.Queued → List Event
  | .ok (some item) => [.activated path item.version]
  | .ok none => []
  | .error e => [.failed path e]

/-- A document is activated. -/
def activate (launcher : Launcher) (m : Manager) (language : String) (path : Path)
    (text : String) : Moved :=
  let ((w, seen), queued) := m.workspace.activate launcher language path text
  ({ m with workspace := w }, seen.map .inWorkspace ++ tell path queued)

/-- Every server is shut down. -/
def leave (m : Manager) (grace : Nat) (asked : Bool) : Manager :=
  { m with workspace := m.workspace.leave grace, stage := .leaving asked }

/-- The manager takes the next command, or ends. -/
def serve (launcher : Launcher) (m : Manager) : Moved :=
  match m.stage with
  | .running =>
    match m.queue with
    | .activate language path text :: rest =>
      { m with queue := rest }.activate launcher language path text
    | .shutdown grace :: rest => ({ m with queue := rest }.leave grace true, [])
    | [] => if m.accepting then (m, []) else (m.leave 0 false, [])
  | .leaving asked =>
    if m.workspace.leaving.isNone then
      ({ m with stage := .ended }, if asked then [.shutDown] else [])
    else (m, [])
  | .ended => (m, [])

/-- Whether the manager can go on. -/
def canServe (m : Manager) : Bool :=
  match m.stage with
  | .running => !m.queue.isEmpty || !m.accepting
  | .leaving _ => m.workspace.leaving.isNone
  | .ended => false

/-- Something happens in the workspace. -/
def stepWorkspace (m : Manager) (a : Workspace.Action) : Moved :=
  let (w, seen) := m.workspace.step a
  ({ m with workspace := w }, seen.map .inWorkspace)

/-! ## Runs -/

/-- A step of a manager. -/
inductive Action where
  | send (c : Command)
  | close
  /-- The manager goes on. -/
  | serve
  /-- A step of the workspace. -/
  | workspace (a : Workspace.Action)
  deriving DecidableEq, Repr

/-- One step. -/
def step (launcher : Launcher) (m : Manager) : Action → Moved
  | .send c => ((m.send c).1, [])
  | .close => (m.close, [])
  | .serve => m.serve launcher
  | .workspace a => m.stepWorkspace a

/-- All steps of a schedule. -/
def run (launcher : Launcher) (m : Manager) : List Action → Moved
  | [] => (m, [])
  | a :: rest =>
    let (m, seen) := m.step launcher a
    let (m, more) := m.run launcher rest
    (m, seen ++ more)

/-- The next step that the manager can take by itself: commands first. -/
def next? (m : Manager) : Option Action :=
  if m.canServe then some .serve else m.workspace.next?.map .workspace

/-- More steps than the manager can take by itself. -/
def work (m : Manager) : Nat := m.workspace.work + 512 * (m.queue.length + 2)

/-- Takes at most so many steps. -/
def settleWithin (launcher : Launcher) : Nat → Manager → Moved
  | 0, m => (m, [])
  | fuel + 1, m =>
    match m.next? with
    | none => (m, [])
    | some a =>
      let (m, seen) := m.step launcher a
      let (m, more) := settleWithin launcher fuel m
      (m, seen ++ more)

/-- The manager at rest. -/
def settle (launcher : Launcher) (m : Manager) : Moved := settleWithin launcher m.work m

end Manager

end LanguageClient
