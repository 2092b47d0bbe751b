import LanguageClient.Path.Basic
import LanguageClient.Session.Settle
import LanguageClient.Uri.FilePath

/-!
# Lanes

A lane leads the documents of one language to its server.  Activations wait in a
queue; a courier does the handshake and then carries them out one after the other,
each as closing the previous document and opening the next one.  Versions are counted
per document when an activation is queued.
-/

set_option autoImplicit false

namespace LanguageClient

/-- A switch to a document that waits to be carried out. -/
structure Activation where
  /-- The document that is closed first. -/
  previous : Option Path
  path : Path
  text : String
  /-- The version of the document, which grows without bound: a document that is activated
  2 ^ 31 times has no next version of 32 bits, and what happens then is left out. -/
  version : Int
  deriving DecidableEq, Repr

/-- Where the courier of a lane stands; a number is that of the call it waits for. -/
inductive Courier where
  | starting
  | subscribing (call : Nat)
  | greeting (call : Nat)
  /-- The handshake is announced to be complete. -/
  | announcing (call : Nat)
  | idle
  /-- The previous document is closed before the next one. -/
  | closing (call : Nat) (next : Activation)
  | opening (call : Nat)
  | ended
  deriving DecidableEq, Repr

/-- The way of one language's documents to its server. -/
structure Lane where
  session : Session
  /-- What the handshake tells the server. -/
  greeting : InitializeParams
  /-- The folder from which relative paths are seen. -/
  folder : Path
  queue : List Activation
  /-- Whether activations can still be queued. -/
  accepting : Bool
  courier : Courier
  /-- The number of the next call. -/
  nextCall : Nat
  /-- The document that was queued last. -/
  active : Option Path
  /-- The last version of every document. -/
  versions : List (Path × Int)
  /-- The call that shuts the session down. -/
  farewell : Option Nat
  deriving DecidableEq

/-- What a lane lets be seen. -/
inductive Sighting where
  /-- The frame of a message went to the server. -/
  | wrote (message : Message)
  /-- The server published diagnostics. -/
  | published (publication : Publication)
  | logged (record : LogRecord)
  deriving DecidableEq

/-- The method by which servers publish diagnostics. -/
def publishMethod : String := "textDocument/publishDiagnostics"

/-- What an event of the session lets be seen. -/
def Event.sighting? : Event → Option Sighting
  | .finished .. => none
  | .wrote m => some (.wrote m)
  | .notified _ params =>
    match Publication.ofJson? params with
    | some p => some (.published p)
    | none => some (.logged (.warn "malformed publishDiagnostics"))
  | .logged r => some (.logged r)

namespace Lane

/-- The lane of a session that has just been launched. -/
def start (session : Session) (greeting : InitializeParams) (folder : Path) : Lane where
  session := session
  greeting := greeting
  folder := folder
  queue := []
  accepting := true
  courier := .starting
  nextCall := 0
  active := none
  versions := []
  farewell := none

/-! ## Queuing -/

/-- Whether a document is the active one. -/
def isActive (l : Lane) (path : Path) : Bool := l.active.any (·.same path)

/-- The last version of a document; zero before the first.  As in an `Activation`, it is not
bounded by 32 bits. -/
def version (l : Lane) (path : Path) : Int :=
  ((l.versions.find? (·.1.same path)).map (·.2)).getD 0

/-- Sets the version of a document. -/
def setVersion (path : Path) (version : Int) : List (Path × Int) → List (Path × Int)
  | [] => [(path, version)]
  | (p, v) :: rest =>
    if p.same path then (p, version) :: rest else (p, v) :: setVersion path version rest

/-- The outcome of an activation: what was queued, or nothing for the active document. -/
abbrev Queued := Except ClientError (Option Activation)

/-- A document becomes the active one.  A version is used up even when the courier has
gone and nothing can be queued. -/
def activate (l : Lane) (path : Path) (text : String) : Lane × Queued :=
  if l.isActive path then (l, .ok none)
  else
    let item : Activation := ⟨l.active, path, text, l.version path + 1⟩
    let l := { l with versions := setVersion path item.version l.versions }
    if l.courier = .ended then (l, .error .sessionTerminated)
    else ({ l with queue := l.queue ++ [item], active := some path }, .ok (some item))

/-- What is logged about an activation. -/
def remarks : Queued → List Sighting
  | .error _ => [.logged (.warn "activation queue closed")]
  | .ok _ => []

/-! ## The courier -/

/-- A lane after a step, and what the step let be seen. -/
abbrev Moved := Lane × List Sighting

/-- Begins a call whose number the courier then holds. -/
def call (l : Lane) (goal : Goal) (courier : Nat → Courier) : Moved :=
  ({ l with
    session := l.session.begin l.nextCall goal
    nextCall := l.nextCall + 1
    courier := courier l.nextCall }, [])

/-- The courier gives up and leaves the queue. -/
def giveUp (l : Lane) (record : LogRecord) : Moved :=
  ({ l with courier := .ended, queue := [] }, [.logged record])

/-- A switch has failed; the courier goes on unless the session has been terminated. -/
def fail (l : Lane) (e : ClientError) : Moved :=
  let record := LogRecord.warn ("document activation failed: " ++ e.message)
  if e = .sessionTerminated then l.giveUp record
  else ({ l with courier := .idle }, [.logged record])

/-- The document of an activation is opened. -/
def «open» (l : Lane) (item : Activation) : Moved :=
  match Uri.ofPathIn l.folder item.path with
  | .error e => l.fail e
  | .ok uri =>
    l.call (.openDocument ⟨uri, l.session.language, item.version, item.text⟩) .opening

/-- An activation is carried out. -/
def switch (l : Lane) (item : Activation) : Moved :=
  match item.previous with
  | none => l.open item
  | some previous =>
    match Uri.ofPathIn l.folder previous with
    | .error e => l.fail e
    | .ok uri => l.call (.closeDocument uri) (.closing · item)

/-- The courier takes the next activation, or ends when none can come any more. -/
def takeNext (l : Lane) : Moved :=
  match l.queue with
  | item :: rest => { l with queue := rest }.switch item
  | [] => if l.accepting then (l, []) else ({ l with courier := .ended }, [])

/-- The record of a failure before the first activation. -/
def refusal (before : String) (e : ClientError) : LogRecord := .error (before ++ e.message)

/-- The courier goes on after the result of a call. -/
def proceed (l : Lane) (result : Except ClientError Json) : Moved :=
  match l.courier, result with
  | .subscribing _, .ok _ => l.call (.handshake l.greeting) .greeting
  | .subscribing _, .error e => l.giveUp (refusal "cannot receive diagnostics: " e)
  | .greeting _, .ok _ => l.call (.notify "initialized" (.obj [])) .announcing
  | .greeting _, .error e | .announcing _, .error e =>
    l.giveUp (refusal "language server failed to initialize: " e)
  | .announcing _, .ok _ | .opening _, .ok _ => ({ l with courier := .idle }, [])
  | .closing _ next, .ok _ => l.open next
  | .closing _ _, .error e | .opening _, .error e => l.fail e
  | .starting, _ | .idle, _ | .ended, _ => (l, [])

/-- The call that the courier waits for. -/
def Courier.call? : Courier → Option Nat
  | .subscribing n | .greeting n | .announcing n | .closing n _ | .opening n => some n
  | .starting | .idle | .ended => none

/-- The courier goes on, if it can. -/
def consume (l : Lane) : Moved :=
  match l.courier with
  | .starting => l.call (.subscribe publishMethod) .subscribing
  | .idle => l.takeNext
  | .ended => (l, [])
  | courier =>
    match (Courier.call? courier).bind l.session.result? with
    | some result => l.proceed result
    | none => (l, [])

/-- Whether the courier can go on. -/
def canConsume (l : Lane) : Bool :=
  match l.courier with
  | .starting => true
  | .idle => !l.queue.isEmpty || !l.accepting
  | .ended => false
  | courier => ((Courier.call? courier).bind l.session.result?).isSome

/-! ## The end of a lane -/

/-- Once the courier has ended, the session is shut down. -/
def bidFarewell (l : Lane) (grace : Nat) : Lane :=
  if l.courier = .ended ∧ l.farewell = none then
    { l with
      session := l.session.begin l.nextCall (.shutdown grace)
      nextCall := l.nextCall + 1
      farewell := some l.nextCall }
  else l

/-- The result of shutting the session down. -/
def farewellResult? (l : Lane) : Option (Except ClientError Json) :=
  l.farewell.bind l.session.result?

/-! ## Runs -/

/-- A step of a lane. -/
inductive Action where
  /-- A step of the session. -/
  | session (a : Session.Action)
  | activate (path : Path) (text : String)
  /-- The courier goes on. -/
  | consume
  /-- Nothing can be queued any more. -/
  | close
  /-- The session is shut down. -/
  | bidFarewell (grace : Nat)
  /-- Nobody uses the session any more. -/
  | release
  deriving DecidableEq, Repr

/-- One step. -/
def step (l : Lane) : Action → Moved
  | .session a =>
    let (s, seen) := l.session.step a
    ({ l with session := s }, seen.filterMap Event.sighting?)
  | .activate path text =>
    let (l, queued) := l.activate path text
    (l, remarks queued)
  | .consume => l.consume
  | .close => ({ l with accepting := false }, [])
  | .bidFarewell grace => (l.bidFarewell grace, [])
  | .release => ({ l with session := l.session.release }, [])

/-- All steps of a schedule. -/
def run (l : Lane) : List Action → Moved
  | [] => (l, [])
  | a :: rest =>
    let (l, seen) := l.step a
    let (l, more) := l.run rest
    (l, seen ++ more)

/-- The next step that the lane can take by itself. -/
def next? (l : Lane) : Option Action :=
  match l.session.next? with
  | some a => some (.session a)
  | none => if l.canConsume then some .consume else none

/-- More steps than the lane can take by itself. -/
def work (l : Lane) : Nat := l.session.work + 64 * (2 * l.queue.length + 5)

end Lane

end LanguageClient
