import LanguageClient.Error
import LanguageClient.Outcome
import LanguageClient.Protocol.Document
import LanguageClient.Protocol.Handshake

/-!
# Calls on a session

A call is an operation that a caller has begun on a session.  It has a goal, and it
stands at a stage: calls advance in small steps, and between two steps anything else
may happen in the session.
-/

set_option autoImplicit false

namespace LanguageClient

/-- What the dispatcher of a session is asked to do. -/
inductive Ask where
  | request (method : String) (params : Json)
  | notify (method : String) (params : Json)
  | subscribe (method : String)
  deriving DecidableEq, Repr

/-- What a caller wants of a session. -/
inductive Goal where
  /-- Send a request and wait for its response. -/
  | request (method : String) (params : Json)
  | notify (method : String) (params : Json)
  /-- Receive the notifications of a method. -/
  | subscribe (method : String)
  /-- Do the handshake. -/
  | handshake (params : InitializeParams)
  | openDocument (document : Document)
  | closeDocument (uri : String)
  /-- Ask the server to prepare for its end. -/
  | requestShutdown
  /-- End the session: ask, announce the exit, and wait so many milliseconds before
  the server is killed. -/
  | shutdown (grace : Nat)
  deriving DecidableEq, Repr

namespace Ask

/-- The announcement that the handshake is complete. -/
def initialized : Ask := .notify "initialized" (.obj [])

/-- The request to prepare for the end. -/
def shutdown : Ask := .request "shutdown" .null

/-- The order to exit. -/
def exit : Ask := .notify "exit" .null

/-- The notification that a document is open. -/
def didOpen (document : Document) : Ask :=
  .notify "textDocument/didOpen" (aboutDocument document.toJson)

/-- The notification that a document is closed. -/
def didClose (uri : String) : Ask :=
  .notify "textDocument/didClose" (aboutDocument (DocumentName.mk uri).toJson)

end Ask

/-- How a call begins. -/
inductive Opening where
  /-- The dispatcher is asked for what the goal is about. -/
  | ask (a : Ask)
  /-- The server is told to exit. -/
  | exit
  /-- There is nothing to do. -/
  | finish (result : Except ClientError Json)
  deriving DecidableEq

/-- The ask, if the session is in the phase that an operation needs. -/
def Opening.inPhase (needed phase : Phase) (operation : String) (a : Ask) : Opening :=
  if phase = needed then .ask a else .finish (.error (.invalidState operation phase))

/-- How a call with a goal begins in a phase. -/
def Goal.opening (phase : Phase) : Goal → Opening
  | .request method params => .ask (.request method params)
  | .notify method params => .ask (.notify method params)
  | .subscribe method => .ask (.subscribe method)
  | .handshake params =>
    .inPhase .launched phase "initialize" (.request "initialize" params.toJson)
  | .openDocument document =>
    .inPhase .initialized phase "textDocument/didOpen" (.didOpen document)
  | .closeDocument uri => .inPhase .initialized phase "textDocument/didClose" (.didClose uri)
  | .requestShutdown => .inPhase .initialized phase "shutdown" .shutdown
  | .shutdown _ =>
    match phase with
    | .exited => .finish (.ok .null)
    | .initialized => .ask .shutdown
    | .launched | .shuttingDown => .exit

/-- The method of the request that a goal makes, for the texts about it. -/
def Goal.requestMethod : Goal → String
  | .request method _ => method
  | .handshake _ => "initialize"
  | _ => "shutdown"

/-- The time that a goal gives the server to exit. -/
def Goal.grace : Goal → Nat
  | .shutdown grace => grace
  | _ => 0

/-- Which of the two questions of a call the dispatcher answers. -/
inductive Topic where
  /-- What the goal is about. -/
  | main
  /-- The order to exit. -/
  | exit
  deriving DecidableEq, Repr

/-- The answer of the dispatcher: the number of a request, nothing, or a refusal. -/
abbrev Answer := Except ClientError (Option Int)

/-- Where a call stands. -/
inductive Stage where
  | ready
  /-- The dispatcher has been asked. -/
  | asking (topic : Topic)
  /-- The dispatcher has answered. -/
  | answered (topic : Topic) (answer : Answer)
  /-- The request with this number is waited for until a deadline. -/
  | waiting (id : Int) (deadline : Nat)
  /-- The exit of the server is waited for until a deadline. -/
  | exiting (deadline : Nat)
  /-- The server has been killed, and its exit is waited for. -/
  | killed
  | finished (result : Except ClientError Json)
  /-- The caller has gone away. -/
  | abandoned
  deriving DecidableEq

/-- A call on a session. -/
structure Call where
  goal : Goal
  stage : Stage
  /-- The number of the request that was sent for the call. -/
  number : Option Int
  deriving DecidableEq

namespace Call

/-- A call that has just begun. -/
def start (goal : Goal) : Call := ⟨goal, .ready, none⟩

/-- The result of a call, once there is one. -/
def result? (c : Call) : Option (Except ClientError Json) :=
  match c.stage with
  | .finished r => some r
  | _ => none

end Call

end LanguageClient
