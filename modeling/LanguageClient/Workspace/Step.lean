import LanguageClient.Workspace.Basic

/-!
# The steps of a workspace

A lane takes a step, a departure goes on, or time passes.  Every list of steps is a run
of the workspace; letting it come to rest takes its own steps until none is possible.
-/

set_option autoImplicit false

namespace LanguageClient.Workspace

/-- A step of a workspace after its start. -/
inductive Action where
  /-- A step of the lane with a number. -/
  | lane (number : Nat) (a : Lane.Action)
  /-- The workspace is left. -/
  | leave (grace : Nat)
  /-- The departure goes on. -/
  | depart
  /-- Time passes. -/
  | advance (milliseconds : Nat)
  deriving DecidableEq, Repr

/-- The lane with a number takes a step. -/
def stepLane (w : Workspace) (number : Nat) (a : Lane.Action) : Moved :=
  match w.lanes[number]? with
  | none => (w, [])
  | some l =>
    let (l, seen) := l.step a
    (w.setLane number l, seen.map (.inLane number))

/-- The workspace is left, unless it is being left already. -/
def leave (w : Workspace) (grace : Nat) : Workspace :=
  match w.leaving with
  | some _ => w
  | none =>
    { w with leaving := some ⟨grace, w.registered.map Prod.snd⟩, registered := [] }

/-- What a departure does next with a lane; nothing when the lane is shut down. -/
inductive Errand where
  | wait
  | act (a : Lane.Action)
  | pass (result : Except ClientError Json)

/-- The errand of a departure in a lane: the queue is closed, the courier finishes, and
then the session is shut down. -/
def errand (l : Lane) (grace : Nat) : Errand :=
  if l.accepting then .act .close
  else match l.farewell with
    | none => if l.courier = .ended then .act (.bidFarewell grace) else .wait
    | some _ => l.farewellResult?.elim .wait .pass

/-- What is logged about the result of a shutdown. -/
def shutdownRemarks : Except ClientError Json → List Sighting
  | .error e => [.logged (.warn ("shutdown failed: " ++ e.message))]
  | .ok _ => []

/-- The departure goes on, if it can. -/
def depart (w : Workspace) : Moved :=
  match w.leaving with
  | none => (w, [])
  | some ⟨_, []⟩ => ({ w with leaving := none }, [])
  | some ⟨grace, number :: rest⟩ =>
    let on : Workspace := { w with leaving := some ⟨grace, rest⟩ }
    match w.lanes[number]? with
    | none => (on, [])
    | some l =>
      match errand l grace with
      | .wait => (w, [])
      | .act a => w.stepLane number a
      | .pass result =>
        let (w, seen) := on.stepLane number .release
        (w, seen ++ (shutdownRemarks result).map (.inLane number))

/-- Whether the departure can go on. -/
def canDepart (w : Workspace) : Bool :=
  match w.leaving with
  | none => false
  | some ⟨_, []⟩ => true
  | some ⟨grace, number :: _⟩ =>
    match w.lanes[number]? with
    | none => true
    | some l =>
      match errand l grace with
      | .wait => false
      | .act _ | .pass _ => true

/-- Time passes everywhere. -/
def advance (w : Workspace) (milliseconds : Nat) : Workspace :=
  { w with
    clock := w.clock + milliseconds
    lanes := w.lanes.map fun l => (l.step (.session (.advance milliseconds))).1 }

/-- One step. -/
def step (w : Workspace) : Action → Moved
  | .lane number a => w.stepLane number a
  | .leave grace => (w.leave grace, [])
  | .depart => w.depart
  | .advance milliseconds => (w.advance milliseconds, [])

/-- All steps of a schedule. -/
def run (w : Workspace) : List Action → Moved
  | [] => (w, [])
  | a :: rest =>
    let (w, seen) := w.step a
    let (w, more) := w.run rest
    (w, seen ++ more)

/-- The earliest time to come at which a call would give something up. -/
def nextDeadline? (w : Workspace) : Option Nat :=
  (w.lanes.filterMap fun l => l.session.nextDeadline?).min?

/-! ## Coming to rest -/

/-- The next step of the first lane that can take one by itself. -/
def nextIn? (number : Nat) : List Lane → Option Action
  | [] => none
  | l :: rest =>
    match l.next? with
    | some a => some (.lane number a)
    | none => nextIn? (number + 1) rest

/-- The next step that the workspace can take by itself. -/
def next? (w : Workspace) : Option Action :=
  match nextIn? 0 w.lanes with
  | some a => some a
  | none => if w.canDepart then some .depart else none

/-- More steps than the workspace can take by itself. -/
def work (w : Workspace) : Nat :=
  w.lanes.foldl (fun n l => n + l.work) 0 + 64 * (w.lanes.length + 1)

/-- Takes at most so many steps. -/
def settleWithin : Nat → Workspace → Moved
  | 0, w => (w, [])
  | fuel + 1, w =>
    match w.next? with
    | none => (w, [])
    | some a =>
      let (w, seen) := w.step a
      let (w, more) := settleWithin fuel w
      (w, seen ++ more)

/-- The workspace at rest. -/
def settle (w : Workspace) : Moved := settleWithin w.work w

end LanguageClient.Workspace
