import LanguageClient.Dispatch.Dispatcher
import LanguageClient.Protocol.Capabilities
import LanguageClient.Session.Call
import LanguageClient.Wire.Reader

/-!
# Sessions

A session ties a dispatcher to the streams of one server.  Callers leave commands in
a queue, the reader leaves messages in another, and the dispatcher takes from both
in any order; frames wait in a third queue until they are written.  `Session` is the
state of all this at one moment; time is counted in milliseconds.
-/

set_option autoImplicit false

namespace LanguageClient

/-- What the dispatcher of a session finds in its queue. -/
inductive Command where
  /-- A call asks for something. -/
  | ask (call : Nat) (topic : Topic) (what : Ask)
  /-- A request is given up. -/
  | cancel (id : Int)
  /-- The server is gone. -/
  | close
  deriving DecidableEq, Repr

/-- How far the end of the server's output has come. -/
inductive Flow where
  /-- More may come. -/
  | running
  /-- The reader has seen the end. -/
  | ended
  /-- The dispatcher has seen the end. -/
  | noticed
  deriving DecidableEq, Repr

/-- A session with a server; handlers are named by their methods. -/
structure Session where
  language : String
  /-- How long a request waits for its response. -/
  limit : Nat
  /-- The process of the server, if the session has started one. -/
  process : Option Nat
  clock : Nat
  phase : Phase
  /-- What the server has stated in the handshake. -/
  capabilities : Option Capabilities
  dispatcher : Dispatcher String
  /-- The requests that have ended, and how. -/
  settled : List (Int × Completion)
  commands : List Command
  /-- The calls so far, by their names; those with a deadline in the order in which they
  got it. -/
  calls : List (Nat × Call)
  reader : Reader
  /-- The messages that were read and not yet dispatched. -/
  inbound : List Message
  flow : Flow
  /-- All messages whose frames were ever queued for the server. -/
  sent : List Message
  /-- Those of them whose frames are not yet written. -/
  outbound : List Message
  /-- Whether the server reads its input. -/
  listening : Bool
  /-- The start of a line of the server's error output, until that output ends. -/
  complaint : Option Bytes
  /-- Whether the process watcher has been told to kill the server. -/
  killing : Bool
  /-- Whether the process watcher may still report the exit of the server. -/
  watched : Bool
  /-- Whether nobody can begin a call any more. -/
  released : Bool
  /-- Whether the dispatcher has ended. -/
  stopped : Bool
  deriving DecidableEq

/-- What a session lets be seen. -/
inductive Event where
  /-- A call has its result. -/
  | finished (call : Nat) (result : Except ClientError Json)
  /-- The frame of a message went to the server. -/
  | wrote (message : Message)
  /-- The handler of a method got the parameters of a notification. -/
  | notified (method : String) (params : Json)
  | logged (record : LogRecord)
  deriving DecidableEq

namespace Session

/-- A session whose server has just been started. -/
def launch (language : String) (limit : Nat) (process : Option Nat) (clock : Nat) : Session where
  language := language
  limit := limit
  process := process
  clock := clock
  phase := .launched
  capabilities := none
  dispatcher := .empty
  settled := []
  commands := []
  calls := []
  reader := .start
  inbound := []
  flow := .running
  sent := []
  outbound := []
  listening := true
  complaint := some []
  killing := false
  watched := process.isSome
  released := false
  stopped := false

/-- The call under a name. -/
def call? (s : Session) (n : Nat) : Option Call :=
  (s.calls.find? (·.1 = n)).map (·.2)

/-- The result of a call, once there is one. -/
def result? (s : Session) (n : Nat) : Option (Except ClientError Json) :=
  (s.call? n).bind Call.result?

/-- Changes the call under a name. -/
def updateCall (s : Session) (n : Nat) (f : Call → Call) : Session :=
  { s with calls := s.calls.map fun (k, c) => (k, if k = n then f c else c) }

/-- Moves a call to a stage. -/
def setStage (s : Session) (n : Nat) (stage : Stage) : Session :=
  s.updateCall n ({ · with stage := stage })

/-- A call begins to wait until a deadline; it comes after all calls that wait already. -/
def awaitAt (s : Session) (n : Nat) (stage : Stage) : Session :=
  let s := s.setStage n stage
  { s with calls := s.calls.filter (·.1 != n) ++ s.calls.filter (·.1 == n) }

/-- How a request ended. -/
def completion? (s : Session) (id : Int) : Option Completion :=
  (s.settled.find? (·.1 = id)).map (·.2)

/-- A text that shows the state of a session. -/
def inspect (s : Session) : String :=
  "ServerSession \x7b language_id: " ++ Text.inspect s.language ++
    ", state: " ++ s.phase.name ++
    ", process_id: " ++ s.process.elim "None" (fun p => "Some(" ++ toString p ++ ")") ++
    ", capabilities: " ++ s.capabilities.elim "None" (fun c => "Some(" ++ c.inspect ++ ")") ++
    " \x7d"

end Session

end LanguageClient
