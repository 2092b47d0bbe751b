import LanguageClient.Error
import LanguageClient.Log.Record
import LanguageClient.Text.Quoted
import LanguageClient.Wire.Message

/-!
# The dispatcher of a session

A dispatcher numbers the requests of a client, remembers which of them are
pending, and routes what the server sends: a response completes the pending
request with its number, a notification goes to the handler of its method.

Every operation is a function from a dispatcher to an outcome: the dispatcher
afterwards, the result for the caller, and the effects in the order in which they
happen.  Numbers are handed out in increasing order and never again, so the
pending numbers are an increasing list below the next one.
-/

set_option autoImplicit false

namespace LanguageClient

/-- How a pending request ends. -/
inductive Completion where
  /-- The server answered with a result. -/
  | success (result : Json)
  /-- The server answered with an error object. -/
  | failure (error : RpcError)
  /-- The session ended first. -/
  | terminated
  /-- The request was given up without any answer. -/
  | dropped
  deriving DecidableEq, Repr

/-- What a caller makes of a completion. -/
def Completion.toResult : Completion → Except ClientError Json
  | .success result => .ok result
  | .failure e => .error (.rpc e.code e.message)
  | .terminated | .dropped => .error .sessionTerminated

/-- Where a message from the server went. -/
inductive Routed where
  /-- A pending request got its result. -/
  | resolved (id : Int)
  /-- A pending request got an error object. -/
  | rejected (id : Int)
  /-- No pending request has the number of this response. -/
  | unknownResponse (id : Int)
  /-- The handler of the method was called. -/
  | notified (method : String)
  /-- The method has no handler. -/
  | unhandled (method : String)
  /-- Servers may not make requests; this one was dropped. -/
  | serverRequest (id : Int) (method : String)
  deriving DecidableEq, Repr

/-- Requests under way and handlers, where `H` names the handlers. -/
structure Dispatcher (H : Type) where
  /-- The number of the next request.  It grows without bound: after 2 ^ 63 requests there is
  no next number of 64 bits, and what happens then is left out. -/
  nextId : Int
  /-- The numbers of the pending requests, in increasing order. -/
  pending : List Int
  /-- The handlers by method, the earliest registration first. -/
  handlers : List (String × H)
  /-- Whether requests and notifications are refused. -/
  closed : Bool
  /-- Whether somebody still takes the outgoing frames. -/
  writable : Bool
  deriving DecidableEq, Repr

namespace Dispatcher

variable {H : Type}

/-- What an operation does beyond the dispatcher itself. -/
inductive Effect (H : Type) where
  /-- The frame of a message is queued for the server. -/
  | sent (message : Message)
  /-- A pending request ends. -/
  | completed (id : Int) (completion : Completion)
  /-- A handler is called with the parameters of a notification. -/
  | called (handler : H) (params : Json)
  /-- A record is logged. -/
  | logged (record : LogRecord)
  deriving DecidableEq, Repr

/-- The outcome of an operation. -/
structure Outcome (H : Type) (α : Type) where
  /-- The dispatcher afterwards. -/
  next : Dispatcher H
  /-- What the caller gets. -/
  result : α
  /-- The effects, in order. -/
  effects : List (Effect H)
  deriving Repr

/-- A dispatcher that has sent and received nothing. -/
def empty : Dispatcher H := ⟨1, [], [], false, true⟩

/-- The handler of a method. -/
def handler? (d : Dispatcher H) (method : String) : Option H :=
  (d.handlers.find? (·.1 = method)).map (·.2)

/-- Registers the handler of a method, which must not have one. -/
def subscribe (d : Dispatcher H) (method : String) (handler : H) :
    Outcome H (Except ClientError Unit) :=
  match d.handler? method with
  | some _ => ⟨d, .error (.handlerExists method), []⟩
  | none => ⟨{ d with handlers := d.handlers ++ [(method, handler)] }, .ok (), []⟩

/-- Sends a request and returns its number.

A number is used up even when nobody takes the frame any more; that closes the
dispatcher. -/
def request (d : Dispatcher H) (method : String) (params : Json) :
    Outcome H (Except ClientError Int) :=
  if d.closed then ⟨d, .error .sessionTerminated, []⟩
  else if d.writable then
    ⟨{ d with nextId := d.nextId + 1, pending := d.pending ++ [d.nextId] }, .ok d.nextId,
      [.sent (.request d.nextId method params)]⟩
  else ⟨{ d with nextId := d.nextId + 1, closed := true }, .error .sessionTerminated, []⟩

/-- Sends a notification. -/
def notify (d : Dispatcher H) (method : String) (params : Json) :
    Outcome H (Except ClientError Unit) :=
  if d.closed then ⟨d, .error .sessionTerminated, []⟩
  else if d.writable then ⟨d, .ok (), [.sent (.notification method params)]⟩
  else ⟨{ d with closed := true }, .error .sessionTerminated, []⟩

/-- The completion that the outcome of a response is. -/
def completionOf : Except RpcError Json → Completion
  | .ok result => .success result
  | .error e => .failure e

/-- The route of a response to a pending request. -/
def routeOf (id : Int) : Except RpcError Json → Routed
  | .ok _ => .resolved id
  | .error _ => .rejected id

/-- Routes a message from the server. -/
def receive (d : Dispatcher H) : Message → Outcome H Routed
  | .response id outcome =>
    if id ∈ d.pending then
      ⟨{ d with pending := d.pending.erase id }, routeOf id outcome,
        [.completed id (completionOf outcome)]⟩
    else
      ⟨d, .unknownResponse id,
        [.logged (.warn ("received response for unknown request id: " ++ toString id))]⟩
  | .notification method params =>
    match d.handler? method with
    | some handler => ⟨d, .notified method, [.called handler params]⟩
    | none =>
      ⟨d, .unhandled method, [.logged (.warn ("unhandled notification: " ++ method))]⟩
  | .request id method _ =>
    ⟨d, .serverRequest id method,
      [.logged (.warn ("received server request (unsupported): " ++ method))]⟩

/-- Gives a pending request up; tells whether there was one with this number. -/
def cancel (d : Dispatcher H) (id : Int) : Outcome H Bool :=
  if id ∈ d.pending then
    ⟨{ d with pending := d.pending.erase id }, true, [.completed id .dropped]⟩
  else ⟨d, false, []⟩

/-- The record of ending all pending requests, when there are any. -/
def rejection (pending : List Int) : List LogRecord :=
  if pending.isEmpty then []
  else [.warn ("rejecting " ++ toString pending.length ++
    " pending request(s): session terminated")]

/-- Ends every pending request. -/
def failAll (d : Dispatcher H) : Outcome H Unit :=
  ⟨{ d with pending := [] }, (),
    (rejection d.pending).map .logged ++ d.pending.map (.completed · .terminated)⟩

/-- Ends every pending request and refuses new ones. -/
def close (d : Dispatcher H) : Outcome H Unit :=
  failAll { d with closed := true }

/-- The environment stops taking outgoing frames. -/
def dropWriter (d : Dispatcher H) : Dispatcher H :=
  { d with writable := false }

/-- A text that shows the state of a dispatcher. -/
def inspect (d : Dispatcher H) : String :=
  "Dispatcher \x7b next_id: " ++ toString d.nextId ++
    ", pending: " ++ toString d.pending.length ++
    ", handlers: " ++ Text.inspectList ((d.handlers.map (·.1)).mergeSort (· ≤ ·)) ++
    ", closed: " ++ toString d.closed ++ " \x7d"

end Dispatcher

end LanguageClient
