import LanguageClient.Collection
import LanguageClient.Rehearsal.Program

/-!
# Performances

In a performance, a collection asks programs about files.  First time passes only for
the programs, until they have left certain files as signs; then it passes only for the
collection, which listens, has the servers shut down, and reports.
-/

set_option autoImplicit false

namespace LanguageClient

open Script (Machine)

/-- A collection with the programs that serve it. -/
structure Performance where
  collection : Collection
  servers : Entries ServerCommand
  /-- The programs that run, by the lanes that they serve. -/
  programs : List (Nat × Machine)
  files : FileTree
  /-- The time as the programs see it. -/
  time : Nat

namespace Performance

/-- Servers are launched as programs. -/
def launcher (p : Performance) : Launcher :=
  ServerCommand.launcher p.servers fun c => (Program.start p.files c).map fun _ => 1

/-- The program of a lane that was opened. -/
def opened? (p : Performance) : Manager.Event → Option (Nat × Machine)
  | .inWorkspace (.opened number language) => do
    let c ← p.servers.find? language
    let m ← (Program.start p.files c).toOption
    return (number, m)
  | _ => none

/-- The bytes that went to the server of a lane. -/
def written (number : Nat) (events : List Manager.Event) : Bytes :=
  events.flatMap fun
    | .inWorkspace (.inLane n (.wrote m)) => if n = number then m.encode else []
    | _ => []

/-- Whether the server of a lane is to be killed. -/
def isKilled (p : Performance) (number : Nat) : Bool :=
  (p.collection.manager.workspace.lanes[number]?).any (·.session.killing)

/-- The programs take their turns, one after the other. -/
def turns (events : List Manager.Event) (p : Performance) :
    List (Nat × Machine) → Performance × List Collection.Action
  | [] => ({ p with programs := [] }, [])
  | (number, m) :: rest =>
    let (m, t, actions) :=
      Program.turn p.time (p.isKilled number) (written number events) m p.files
    let (p, more) := turns events { p with files := t } rest
    ({ p with programs := (m.map (number, ·)).toList ++ p.programs },
      actions.map (fun a => .manager (.workspace (.lane number (.session a)))) ++ more)

/-- The collection comes to rest, and then it is the programs' turn. -/
def turn (p : Performance) : Performance × List Collection.Action :=
  let (c, seen) := p.collection.settle p.launcher
  turns seen { p with collection := c } (p.programs ++ seen.filterMap p.opened?)

/-- Collection and programs take at most so many turns. -/
def settleWithin : Nat → Performance → Performance
  | 0, p => p
  | fuel + 1, p =>
    match p.turn with
    | (p, []) => p
    | (p, actions) =>
      settleWithin fuel { p with collection := (p.collection.run p.launcher actions).1 }

/-- How many turns there are at most without time passing. -/
def maxTurns : Nat := 1000

/-- Collection and programs at rest. -/
def settle (p : Performance) : Performance := settleWithin maxTurns p

/-- The time at which the next program wakes up. -/
def nextWake? (p : Performance) : Option Nat :=
  (p.programs.filterMap fun (_, m) => m.wake?).min?

/-- Lets the programs go on until the signs are there, with at most so many leaps. -/
def awaitSigns (signs : List Path) : Nat → Performance → Performance
  | 0, p => p
  | fuel + 1, p =>
    let p := p.settle
    if signs.all p.files.exists then p
    else match p.nextWake? with
      | some time => awaitSigns signs fuel { p with time := time }
      | none => p

/-- Lets the collection go on until it is done, with at most so many leaps. -/
def conclude : Nat → Performance → Performance
  | 0, p => p
  | fuel + 1, p =>
    let p := p.settle
    if p.collection.stage = .done then p
    else match p.collection.nextDeadline? with
      | some time =>
        let leap : Collection.Action :=
          .manager (.workspace (.advance (time - p.collection.clock)))
        conclude fuel { p with collection := (p.collection.step p.launcher leap).1 }
      | none => p

/-- How many leaps of time there are at most. -/
def maxLeaps : Nat := 10000

/-- The report of a collection over files, performed from its start to its end. -/
def give (s : LspSettings) (t : FileTree) (w : Workspace) (files signs : List Path) :
    CommandLine.Report :=
  let start : Performance := ⟨.start s t w files, ServerCommand.ofSettings s, [], t, 0⟩
  ((start.awaitSigns signs maxLeaps).conclude maxLeaps).collection.report

end Performance

end LanguageClient
