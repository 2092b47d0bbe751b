import LanguageClient.Session.Basic
import LanguageClient.Text.Duration

/-!
# The steps of a session

Everything that can happen to a session is one of a few small steps: a call goes on,
the dispatcher takes a command or a message, a frame is written, or something
happens outside.  Each step is a total function, and one that is not possible changes
nothing, so every list of steps is a run of the session.
-/

set_option autoImplicit false

namespace LanguageClient.Session

/-- A session after a step, and what the step let be seen. -/
abbrev Moved := Session × List Event

/-- Adds something seen before what a later step lets be seen. -/
def Moved.after (events : List Event) (m : Moved) : Moved := (m.1, events ++ m.2)

/-! ## Calls -/

/-- Begins a call under a new name. -/
def begin (s : Session) (n : Nat) (goal : Goal) : Session :=
  { s with calls := s.calls ++ [(n, .start goal)] }

/-- The caller of a call goes away. -/
def abandon (s : Session) (n : Nat) : Session :=
  s.updateCall n fun c =>
    match c.stage with
    | .finished _ => c
    | _ => { c with stage := .abandoned }

/-- Gives a call its result. -/
def finish (s : Session) (n : Nat) (result : Except ClientError Json) : Moved :=
  (s.setStage n (.finished result), [.finished n result])

/-- Asks the dispatcher on behalf of a call. -/
def askFor (s : Session) (n : Nat) (topic : Topic) (what : Ask) : Session :=
  { s.setStage n (.asking topic) with commands := s.commands ++ [.ask n topic what] }

/-- Moves from one phase to another; in any third phase nothing changes. -/
def advancePhase (s : Session) (before after : Phase) : Session :=
  if s.phase = before then { s with phase := after } else s

/-- What the handshake's result does to a session. -/
def handshake (s : Session) (n : Nat) : Except ClientError Json → Moved
  | .error (.rpc code message) =>
    s.finish n (.error (.initFailed ("server replied " ++ toString code ++ ": " ++ message)))
  | .error e => s.finish n (.error e)
  | .ok v =>
    match InitializeResult.ofJson? v with
    | none => s.finish n (.error (.serialization "initialize result"))
    | some r =>
      let s := { s with
        capabilities := s.capabilities <|> some (Capabilities.ofJson r.capabilities) }
      (s.advancePhase .launched .initialized).finish n (.ok r.toJson)

/-- What the outcome of a call's request, or of its only question, leads to. -/
def conclude (s : Session) (n : Nat) (goal : Goal) (outcome : Except ClientError Json) : Moved :=
  match goal, outcome with
  | .handshake _, outcome => s.handshake n outcome
  | .requestShutdown, .ok _ => (s.advancePhase .initialized .shuttingDown).finish n (.ok .null)
  | .shutdown _, .ok _ => ((s.advancePhase .initialized .shuttingDown).askFor n .exit .exit, [])
  | .shutdown _, .error e =>
    (s.askFor n .exit .exit, [.logged (.warn ("shutdown request failed: " ++ e.message))])
  | _, outcome => s.finish n outcome

/-- Gives up waiting for a request. -/
def timeOut (s : Session) (n : Nat) (goal : Goal) (id : Int) : Moved :=
  let s := { s with commands := s.commands ++ [Command.cancel id] }
  (s.conclude n goal (.error (.timeout goal.requestMethod (s.limit / 1000)))).after
    [.logged (.warn ("request '" ++ goal.requestMethod ++ "' timed out"))]

/-- Kills a server that does not exit. -/
def kill (s : Session) (n : Nat) (grace : Nat) : Moved :=
  let s := s.setStage n .killed
  let s := if s.process.isSome then { s with killing := true }
    else { s with commands := s.commands ++ [Command.close] }
  (s, [.logged (.warn ("language server did not exit within " ++ Text.duration grace ++
    "; killing"))])

/-- A call goes on, if it can. -/
def resume (s : Session) (n : Nat) : Moved :=
  match s.call? n with
  | none => (s, [])
  | some c =>
    match c.stage with
    | .ready =>
      match c.goal.opening s.phase with
      | .ask what => (s.askFor n .main what, [])
      | .exit => (s.askFor n .exit .exit, [])
      | .finish result => s.finish n result
    | .answered .main (.error e) => s.conclude n c.goal (.error e)
    | .answered .main (.ok none) => s.conclude n c.goal (.ok .null)
    | .answered .main (.ok (some id)) => (s.awaitAt n (.waiting id (s.clock + s.limit)), [])
    | .answered .exit _ => (s.awaitAt n (.exiting (s.clock + c.goal.grace)), [])
    | .waiting id deadline =>
      match s.completion? id with
      | some completion => s.conclude n c.goal completion.toResult
      | none => if deadline ≤ s.clock then s.timeOut n c.goal id else (s, [])
    | .exiting deadline =>
      if s.phase = .exited then s.finish n (.ok .null)
      else if deadline ≤ s.clock then s.kill n c.goal.grace
      else (s, [])
    | .killed => if s.phase = .exited then s.finish n (.ok .null) else (s, [])
    | .asking _ | .finished _ | .abandoned => (s, [])

/-! ## The dispatcher -/

/-- Takes in the effect of an operation of the dispatcher. -/
def absorb (s : Session) : Dispatcher.Effect String → Moved
  | .sent m => ({ s with sent := s.sent ++ [m], outbound := s.outbound ++ [m] }, [])
  | .completed id completion => ({ s with settled := s.settled ++ [(id, completion)] }, [])
  | .called method params => (s, [.notified method params])
  | .logged record => (s, [.logged record])

/-- Takes in the effects of an operation of the dispatcher. -/
def absorbAll (s : Session) : List (Dispatcher.Effect String) → Moved
  | [] => (s, [])
  | e :: rest =>
    let (s, seen) := s.absorb e
    (s.absorbAll rest).after seen

/-- Takes in the outcome of an operation of the dispatcher. -/
def applied {α : Type} (s : Session) (o : Dispatcher.Outcome String α) : Moved :=
  absorbAll { s with dispatcher := o.next } o.effects

/-- Gives a call the answer that it waits for. -/
def answer (s : Session) (n : Nat) (topic : Topic) (a : Answer) : Session :=
  s.updateCall n fun c =>
    if c.stage = .asking topic then
      { c with
        stage := .answered topic a
        number := match a with
          | .ok (some id) => some id
          | _ => c.number }
    else c

/-- The dispatcher does what a call asks for. -/
def perform (s : Session) (n : Nat) (topic : Topic) (what : Ask) : Moved :=
  match what with
  | .request method params =>
    let o := s.dispatcher.request method params
    (s.answer n topic (o.result.map some)).applied o
  | .notify method params =>
    let o := s.dispatcher.notify method params
    (s.answer n topic (o.result.map fun _ => none)).applied o
  | .subscribe method =>
    let o := s.dispatcher.subscribe method method
    (s.answer n topic (o.result.map fun _ => none)).applied o

/-- Whether commands can still come. -/
def mayCommand (s : Session) : Bool := !s.released || s.watched

/-- The dispatcher takes the next command; when none can come any more, it ends. -/
def serve (s : Session) : Moved :=
  if s.stopped then (s, [])
  else match s.commands with
    | [] => if s.mayCommand then (s, [])
      else { s with stopped := true }.applied s.dispatcher.close
    | command :: rest =>
      let s := { s with commands := rest }
      match command with
      | .ask n topic what => s.perform n topic what
      | .cancel id => s.applied (s.dispatcher.cancel id)
      | .close => { s with phase := .exited }.applied s.dispatcher.close

/-- The dispatcher takes the next message, or notices that no more will come. -/
def deliver (s : Session) : Moved :=
  if s.stopped then (s, [])
  else match s.inbound with
    | m :: rest => { s with inbound := rest }.applied (s.dispatcher.receive m)
    | [] =>
      if s.flow = .ended then
        let seen : List Event :=
          if s.phase = .shuttingDown then []
          else [.logged (.warn "server stream closed unexpectedly")]
        let phase := if s.process.isSome then s.phase else .exited
        ({ s with flow := .noticed, phase := phase }.applied s.dispatcher.close).after seen
      else (s, [])

/-! ## The streams -/

/-- The next frame is written, unless the server has stopped reading. -/
def write (s : Session) : Moved :=
  match s.outbound with
  | [] => (s, [])
  | m :: rest =>
    if s.listening then ({ s with outbound := rest }, [.wrote m])
    else ({ s with outbound := [], dispatcher := s.dispatcher.dropWriter },
      [.logged (.warn ("write to server failed: " ++ IoError.brokenPipe.message))])

/-- The reader sees the end of the server's output. -/
def endOutput (s : Session) : Session :=
  { s with
    reader := s.reader.stop
    flow := if s.flow = .running then .ended else s.flow }

/-- The message that an outcome of the reader is. -/
def message? : Except Message.Fault Message → Option Message
  | .ok m => some m
  | .error _ => none

/-- What is logged about an outcome of the reader. -/
def remark? : Except Message.Fault Message → Option Event
  | .ok _ => none
  | .error f => some (.logged (.warn ("dropping malformed message: " ++ f.message)))

/-- What the reader can use of what it has found: once the dispatcher has ended, it
stops at the first message. -/
def usable (s : Session) (found : Reader.Found) : Reader.Found :=
  if s.stopped && found.outcomes.any (fun o => (message? o).isSome) then
    ⟨found.outcomes.takeWhile fun o => (message? o).isNone, none⟩
  else found

/-- The server writes to its output. -/
def serverWrites (s : Session) (bytes : Bytes) : Moved :=
  let (reader, found) := s.reader.feed bytes
  let used := s.usable found
  let s := { s with
    reader := if used.outcomes.length < found.outcomes.length then reader.stop else reader
    inbound := s.inbound ++ used.outcomes.filterMap message? }
  let seen := used.outcomes.filterMap remark?
  match used.fault with
  | none => (s, seen)
  | some f => (s.endOutput, seen ++ [.logged (.error
      ("stopped reading server stdout: " ++ (ClientError.framing f.message).message))])

/-- The text of a line of the server's error output. -/
def complaintText (line : Bytes) : String :=
  String.ofList (Text.trimEnd (fun c => c = '\r' || c = '\n') (Utf8.decodeLossy line).toList)

/-- The complete lines of a byte sequence, and the start of the next one; `begun` is the
start of the first line, backwards. -/
def splitLines (begun : Bytes) : Bytes → List Bytes × Bytes
  | [] => ([], begun.reverse)
  | b :: rest =>
    if b = 10 then
      let (lines, last) := splitLines [] rest
      (begun.reverse :: lines, last)
    else splitLines (b :: begun) rest

/-- The server writes to its error output, unless it has closed it. -/
def serverComplains (s : Session) (bytes : Bytes) : Moved :=
  match s.complaint with
  | none => (s, [])
  | some begun =>
    let (lines, last) := splitLines begun.reverse bytes
    ({ s with complaint := some last }, lines.map fun l => .logged (.error (complaintText l)))

/-- The server closes its error output; a line that was begun counts. -/
def serverEndsComplaints (s : Session) : Moved :=
  let begun := (s.complaint.filter (· ≠ [])).toList
  ({ s with complaint := none }, begun.map fun l => .logged (.error (complaintText l)))

/-- The process of the server has ended. -/
def processExits (s : Session) : Session :=
  if s.watched then { s with watched := false, commands := s.commands ++ [.close] } else s

/-- Nobody will begin a call any more; a server that still runs is killed. -/
def release (s : Session) : Session :=
  { s with released := true, killing := s.killing || (s.process.isSome && s.phase != .exited) }

/-! ## Runs -/

/-- A step of a session. -/
inductive Action where
  /-- A call goes on. -/
  | resume (call : Nat)
  /-- The dispatcher takes a command. -/
  | serve
  /-- The dispatcher takes a message. -/
  | deliver
  /-- A frame is written. -/
  | write
  | serverWrites (bytes : Bytes)
  | serverCloses
  | serverComplains (bytes : Bytes)
  | serverEndsComplaints
  /-- The server stops reading. -/
  | serverStopsReading
  | processExits
  /-- Time passes. -/
  | advance (milliseconds : Nat)
  deriving DecidableEq, Repr

/-- One step. -/
def step (s : Session) : Action → Moved
  | .resume n => s.resume n
  | .serve => s.serve
  | .deliver => s.deliver
  | .write => s.write
  | .serverWrites bytes => s.serverWrites bytes
  | .serverCloses => (s.endOutput, [])
  | .serverComplains bytes => s.serverComplains bytes
  | .serverEndsComplaints => s.serverEndsComplaints
  | .serverStopsReading => ({ s with listening := false }, [])
  | .processExits => (s.processExits, [])
  | .advance milliseconds => ({ s with clock := s.clock + milliseconds }, [])

/-- All steps of a schedule. -/
def run (s : Session) : List Action → Moved
  | [] => (s, [])
  | a :: rest =>
    let (s, seen) := s.step a
    (s.run rest).after seen

end LanguageClient.Session
