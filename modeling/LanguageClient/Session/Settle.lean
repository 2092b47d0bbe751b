import LanguageClient.Session.Step

/-!
# Letting a session come to rest

From every state a session can take its own steps, in a fixed order, until none is
possible any more: calls whose time is up before messages, messages before commands,
commands before other calls, and frames last.  Among calls whose time is up the
earliest deadline comes first, and of equal deadlines the one that was set first; so all
that are up at one moment give up before the dispatcher hears of it.
-/

set_option autoImplicit false

namespace LanguageClient.Session

/-- Whether a call can go on without its time being up. -/
def isWoken (s : Session) (c : Call) : Bool :=
  match c.stage with
  | .ready | .answered .. => true
  | .waiting id _ => (s.completion? id).isSome
  | .exiting _ | .killed => s.phase = .exited
  | .asking _ | .finished _ | .abandoned => false

/-- The deadline of a call that has one. -/
def deadline? (c : Call) : Option Nat :=
  match c.stage with
  | .waiting _ deadline | .exiting deadline => some deadline
  | _ => none

/-- The earlier of two calls, by their deadlines. -/
def earlier (a b : Nat × Nat) : Nat × Nat := if b.2 < a.2 then b else a

/-- The call whose time is up first. -/
def overdue? (s : Session) : Option Nat :=
  let due := s.calls.filterMap fun (n, c) =>
    ((deadline? c).filter (· ≤ s.clock)).map (n, ·)
  match due with
  | [] => none
  | first :: rest => some (rest.foldl earlier first).1

/-- The earliest time to come at which a call would give something up. -/
def nextDeadline? (s : Session) : Option Nat :=
  ((s.calls.filterMap fun (_, c) => deadline? c).filter (s.clock < ·)).min?

/-- The next step that the session can take by itself. -/
def next? (s : Session) : Option Action :=
  match s.overdue? with
  | some n => some (.resume n)
  | none =>
    if !s.stopped && (!s.inbound.isEmpty || s.flow = .ended) then some .deliver
    else if !s.stopped && (!s.commands.isEmpty || !s.mayCommand) then some .serve
    else match s.calls.find? fun (_, c) => s.isWoken c with
      | some (n, _) => some (.resume n)
      | none => if s.outbound.isEmpty then none else some .write

/-- More steps than the session can take by itself. -/
def work (s : Session) : Nat :=
  32 * (s.calls.length + s.commands.length + s.inbound.length + s.outbound.length + 1)

/-- Takes at most so many steps. -/
def settleWithin : Nat → Session → Moved
  | 0, s => (s, [])
  | fuel + 1, s =>
    match s.next? with
    | none => (s, [])
    | some a =>
      let (s, seen) := s.step a
      (settleWithin fuel s).after seen

/-- The session at rest. -/
def settle (s : Session) : Moved := settleWithin s.work s

end LanguageClient.Session
