import LanguageClient.Rehearsal.Program
import LanguageClient.Session.Settle

/-!
# Engagements

In an engagement a session is served by one program.  The two act in turn until neither
can go on; then time leaps to the next moment at which one of them can.
-/

set_option autoImplicit false

namespace LanguageClient

open Script (Machine)

/-- A session with the program that serves it. -/
structure Engagement where
  session : Session
  /-- The program, as long as it runs. -/
  program : Option Machine
  files : FileTree
  /-- The notifications that handlers got and nobody has asked about yet. -/
  heard : List (String × Json)

namespace Engagement

/-- Launches a session over a program. -/
def launch (t : FileTree) (language : String) (c : ServerCommand) :
    Except ClientError Engagement :=
  match Program.start t c with
  | .error e => .error (.spawnFailed (c.command ++ ": " ++ e.message))
  | .ok m => .ok ⟨.launch language c.limit (some 1) 0, some m, t, []⟩

/-- The bytes that went to the server. -/
def written (events : List Event) : Bytes :=
  events.flatMap fun
    | .wrote m => m.encode
    | _ => []

/-- The notifications that handlers got. -/
def notes (events : List Event) : List (String × Json) :=
  events.filterMap fun
    | .notified method params => some (method, params)
    | _ => none

/-- The session comes to rest, and then it is the program's turn; nothing when the
program does nothing then. -/
def turn (e : Engagement) : Engagement × List Session.Action :=
  let (s, seen) := e.session.settle
  let e := { e with session := s, heard := e.heard ++ notes seen }
  match e.program with
  | none => (e, [])
  | some m =>
    let (m, t, actions) := Program.turn s.clock s.killing (written seen) m e.files
    ({ e with program := m, files := t }, actions)

/-- How many turns there are at most without time passing. -/
def maxTurns : Nat := 1000

/-- Session and program take at most so many turns. -/
def settleWithin : Nat → Engagement → Engagement
  | 0, e => e
  | fuel + 1, e =>
    match e.turn with
    | (e, []) => e
    | (e, actions) =>
      let (s, seen) := e.session.run actions
      settleWithin fuel { e with session := s, heard := e.heard ++ notes seen }

/-- Session and program at rest. -/
def settle (e : Engagement) : Engagement := settleWithin maxTurns e

/-- The next time at which the session or the program can go on. -/
def nextTime? (e : Engagement) : Option Nat :=
  (e.session.nextDeadline?.toList ++ (e.program.bind Machine.wake?).toList).min?

/-- Time leaps forward. -/
def leap (e : Engagement) (time : Nat) : Engagement :=
  { e with session := (e.session.step (.advance (time - e.session.clock))).1 }

/-- Lets things happen until something is so, with at most so many leaps and not beyond
a time. -/
def awaitWithin (isSo : Engagement → Bool) (limit : Nat) : Nat → Engagement → Engagement
  | 0, e => e.settle
  | fuel + 1, e =>
    let e := e.settle
    if isSo e then e
    else match e.nextTime? with
      | some time => if time ≤ limit then awaitWithin isSo limit fuel (e.leap time) else e.leap limit
      | none => e

/-- How many leaps of time there are at most in one wait. -/
def maxLeaps : Nat := 10000

/-- Lets things happen until something is so, for at most so many milliseconds. -/
def await (e : Engagement) (isSo : Engagement → Bool) (patience : Nat) : Engagement :=
  awaitWithin isSo (e.session.clock + patience) maxLeaps e

/-- More milliseconds than any call takes. -/
def noHurry : Nat := 1000000000000

/-- Begins a call and lets things happen until it has a result. -/
def call (e : Engagement) (number : Nat) (goal : Goal) :
    Engagement × Option (Except ClientError Json) :=
  let begun := { e with session := e.session.begin number goal }
  let e := begun.await (fun e => (e.session.result? number).isSome) noHurry
  (e, e.session.result? number)

/-- Nobody uses the session any more. -/
def release (e : Engagement) : Engagement := ({ e with session := e.session.release }).settle

end Engagement

end LanguageClient
