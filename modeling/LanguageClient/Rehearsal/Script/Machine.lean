import LanguageClient.Rehearsal.Script.Streams

/-!
# Running scripts

A running script goes on in small steps, each of which may write something; a step that
lacks input or time waits.
-/

set_option autoImplicit false

namespace LanguageClient.Script

/-- What comes of a step. -/
inductive Progress where
  | went (m : Machine) (t : FileTree) (effects : List Effect)
  /-- There is nothing to do before there is input, or before some time. -/
  | waits
  | ended

namespace Machine

/-- A step that only sets the status. -/
def finish (m : Machine) (t : FileTree) (status : Nat) : Progress :=
  .went { m with status := status } t []

/-- A step that writes to the output. -/
def print (m : Machine) (t : FileTree) (bytes : Bytes) : Progress :=
  let (t, effects) := emit t m.streams.output bytes
  .went { m with status := 0 } t effects

/-- A step that fails with a complaint. -/
def complain (m : Machine) (t : FileTree) (status : Nat) (text : String) : Progress :=
  let (t, effects) := emit t m.streams.complaints (Utf8.encode ("sh: " ++ text ++ "\n"))
  .went { m with status := status } t effects

/-- A step that changes files and may fail. -/
def change (m : Machine) (t : FileTree) (work : FileWork Unit) : Progress :=
  match work.on t with
  | (.ok (), t) => m.finish t 0
  | (.error e, t) => m.complain t 1 e.message

/-- The status of a truth. -/
def statusOf (truth : Bool) : Nat := if truth then 0 else 1

/-- The truth of a test. -/
def test (t : FileTree) : List Bytes → Bool
  | [] => false
  | [a] => a ≠ []
  | [op, a] =>
    match Utf8.decodeLossy op with
    | "!" => a = []
    | "-n" => a ≠ []
    | "-z" => a = []
    | "-e" => t.exists (pathOf a)
    | "-f" => t.isFile (pathOf a)
    | "-d" => t.isFolder (pathOf a)
    | "-s" => (t.read (pathOf a)).toOption.any fun content => content.size ≠ 0
    | _ => false
  | [a, op, b] =>
    let x := Arithmetic.intOf (Utf8.decodeLossy a).toList
    let y := Arithmetic.intOf (Utf8.decodeLossy b).toList
    match Utf8.decodeLossy op with
    | "=" => a = b
    | "!=" => a ≠ b
    | "-eq" => x = y
    | "-ne" => x ≠ y
    | "-lt" => x < y
    | "-le" => x ≤ y
    | "-gt" => y < x
    | "-ge" => y ≤ x
    | _ => Utf8.decodeLossy a = "!" && !(test t [op, b])
  | a :: rest => Utf8.decodeLossy a = "!" && !(test t rest)

/-- The milliseconds of a number of seconds with an optional fraction. -/
def milliseconds (field : Bytes) : Nat :=
  let cs := (Utf8.decodeLossy field).toList
  let whole := cs.takeWhile Number.isDigit
  let fraction := ((cs.dropWhile Number.isDigit).drop 1).takeWhile Number.isDigit
  Number.natOfDigits whole * 1000 +
    Number.natOfDigits ((fraction ++ ['0', '0', '0']).take 3)

/-- Whether a task ends a script inside another. -/
def isBoundary : Task → Bool
  | .boundary .. => true
  | _ => false

/-- Whether a task is the next round of a loop. -/
def isRound : Task → Bool
  | .round .. | .each .. => true
  | _ => false

/-- Runs the text of another script. -/
def enter (m : Machine) (t : FileTree) (text : String) (arguments : List Bytes) : Progress :=
  match read? text.toList with
  | none => m.complain t 2 "syntax error"
  | some c =>
    .went { m with
      tasks := .run c :: .boundary m.values m.arguments :: m.tasks
      arguments := arguments } t []

/-- Runs a shell with arguments. -/
def shell (m : Machine) (t : FileTree) : List Bytes → Progress
  | [] => m.finish t 0
  | field :: rest =>
    if Utf8.decodeLossy field = "-c" then
      match rest with
      | text :: arguments => m.enter t (Utf8.decodeLossy text) (arguments.drop 1)
      | [] => m.complain t 2 "-c requires an argument"
    else match t.read (pathOf field) with
      | .ok content => m.enter t (Utf8.decodeLossy content.toList) rest
      | .error _ => m.complain t 2 ("cannot open " ++ Utf8.decodeLossy field)

/-- The count of the bytes to skim, from the arguments. -/
def skimCount? : List Bytes → Option Nat
  | [flag] =>
    match flag with
    | 45 :: 99 :: digits => Number.ofDigits? 10 (Utf8.decodeLossy digits).toList
    | _ => none
  | [[45, 99], digits] => Number.ofDigits? 10 (Utf8.decodeLossy digits).toList
  | _ => none

/-- The contents of files, one after the other. -/
def contents (t : FileTree) (fields : List Bytes) : Bytes :=
  fields.flatMap fun f => ((t.read (pathOf f)).toOption.map fun c => c.toList).getD []

/-- Runs a command whose words are known. -/
def invoke (m : Machine) (clock : Nat) (t : FileTree) (name : String) (arguments : List Bytes) :
    Progress :=
  let push (task : Task) : Progress := .went { m with tasks := task :: m.tasks } t []
  match name with
  | "true" | ":" | "trap" | "set" | "wait" | "export" => m.finish t 0
  | "false" => m.finish t 1
  | "exit" =>
    let status := (arguments.head?.map fun a =>
      (Arithmetic.intOf (Utf8.decodeLossy a).toList % 256).toNat).getD m.status
    .went { m with status := status, tasks := m.tasks.dropWhile (!isBoundary ·) } t []
  | "kill" => .went { m with tasks := [] } t []
  | "break" => .went { m with tasks := (m.tasks.dropWhile (!isRound ·)).drop 1 } t []
  | "continue" => .went { m with tasks := m.tasks.dropWhile (!isRound ·) } t []
  | "shift" => .went { m with arguments := m.arguments.drop 1, status := 0 } t []
  | "printf" => m.print t (Printing.formatted (arguments.head?.getD []) (arguments.drop 1))
  | "echo" => m.print t (Printing.echoed arguments)
  | "cat" => if arguments.isEmpty then push .copy else m.print t (contents t arguments)
  | "head" =>
    match skimCount? arguments with
    | some count => push (.skim count)
    | none => m.complain t 1 "head: unsupported arguments"
  | "read" =>
    let names := arguments.filter (·.head? != some 45)
    push (.readLine (Utf8.decodeLossy (names.head?.getD (Utf8.encode "REPLY"))) [])
  | "sleep" => push (.sleepUntil (clock + milliseconds (arguments.head?.getD [])))
  | "touch" =>
    m.change t (arguments.forM fun f => FileWork.change (·.append (pathOf f) .empty))
  | "rm" =>
    let files := arguments.filter (·.head? != some 45)
    m.change t (files.forM fun f => FileWork.change (·.removeFile (pathOf f)))
  | "mkdir" =>
    let folders := arguments.filter (·.head? != some 45)
    m.change t (folders.forM fun f => FileWork.makeFolders (pathOf f))
  | "test" => m.finish t (statusOf (test t arguments))
  | "[" => m.finish t (statusOf (test t arguments.dropLast))
  | "sh" | "bash" | "dash" => m.shell t arguments
  | _ => m.complain t 127 (name ++ ": not found")

/-- Sets values. -/
def assign (m : Machine) (assignments : List (String × Word)) : Machine :=
  assignments.foldl (fun m (name, w) =>
    { m with values := m.values.put name (m.expandOne w) }) m

/-- What those around a script see of its streams being replaced for good. -/
def closings (before after : Streams) : List Effect :=
  (if before.output = .output ∧ after.output ≠ .output then [.closedOutput] else []) ++
    (if before.source = .input ∧ after.source ≠ .input then [.closedInput] else [])

/-- Runs a simple command: its words become known and its streams are redirected. -/
def simple (m : Machine) (t : FileTree) (assignments : List (String × Word))
    (words : List Word) (redirects : List Redirect) : Progress :=
  match m.redirectAll t redirects with
  | .error e => m.complain t 2 e.message
  | .ok (streams, t) =>
    let m := m.assign assignments
    match words.flatMap m.expand with
    | [] => m.finish t 0
    | name :: arguments =>
      if Utf8.decodeLossy name = "exec" then
        let effects := closings m.streams streams
        let tasks := if arguments.isEmpty then m.tasks else [.invoke arguments]
        .went { m with streams := streams, tasks := tasks, status := 0 } t effects
      else
        .went { m with
          streams := streams
          tasks := .invoke (name :: arguments) :: .restore m.streams :: m.tasks } t []

/-- Begins a command. -/
def begin (m : Machine) (t : FileTree) (c : Command) : Progress :=
  let push (tasks : List Task) : Progress := .went { m with tasks := tasks ++ m.tasks } t []
  match c with
  | .nothing => .went m t []
  | .simple assignments words redirects => m.simple t assignments words redirects
  | .sequence a b => push [.run a, .run b]
  | .both a b => push [.run a, .onSuccess b]
  | .either a b => push [.run a, .onFailure b]
  | .negated c => push [.run c, .negate]
  | .choice test yes no => push [.run test, .choose yes no]
  | .loop whileFails test body => push [.round whileFails test body]
  | .each name words body => push [.each name (words.flatMap m.expand) body]
  | .group body redirects =>
    match m.redirectAll t redirects with
    | .error e => m.complain t 2 e.message
    | .ok (streams, t) =>
      .went { m with
        streams := streams
        tasks := .run body :: .restore m.streams :: m.tasks } t []

/-- Takes the first task, at a time. -/
def step (m : Machine) (clock : Nat) (t : FileTree) : Progress :=
  match m.tasks with
  | [] => .ended
  | task :: rest =>
    let n : Machine := { m with tasks := rest }
    let push (tasks : List Task) : Progress := .went { n with tasks := tasks ++ rest } t []
    let (bytes, more) := n.readable
    match task with
    | .run c => n.begin t c
    | .invoke [] => .went n t []
    | .invoke (name :: arguments) => n.invoke clock t (Utf8.decodeLossy name) arguments
    | .onSuccess c => push (if m.status = 0 then [.run c] else [])
    | .onFailure c => push (if m.status = 0 then [] else [.run c])
    | .negate => n.finish t (if m.status = 0 then 1 else 0)
    | .choose yes no => push [.run (if m.status = 0 then yes else no)]
    | .round whileFails test body => push [.run test, .again whileFails test body]
    | .again whileFails test body =>
      if whileFails = (m.status != 0) then push [.run body, .round whileFails test body]
      else n.finish t 0
    | .each _ [] _ => n.finish t 0
    | .each name (item :: items) body =>
      .went { n with
        values := n.values.put name item
        tasks := .run body :: .each name items body :: rest } t []
    | .restore streams => .went { n with streams := streams } t []
    | .copy =>
      if bytes ≠ [] then
        let (t, effects) := emit t n.streams.output bytes
        .went { n.consume bytes.length with tasks := .copy :: rest } t effects
      else if more then .waits
      else n.finish t 0
    | .skim 0 => n.finish t 0
    | .skim count =>
      if bytes ≠ [] then
        let taken := bytes.take count
        let (t, effects) := emit t n.streams.output taken
        .went { n.consume taken.length with tasks := .skim (count - taken.length) :: rest } t effects
      else if more then .waits
      else n.finish t 0
    | .readLine name start =>
      let line := bytes.takeWhile (· ≠ 10)
      let store (read : Bytes) (taken status : Nat) : Progress :=
        .went { n.consume taken with values := n.values.put name read, status := status } t []
      if line.length < bytes.length then store (start ++ line) (line.length + 1) 0
      else if more then
        if bytes = [] then .waits
        else .went { n.consume line.length with tasks := .readLine name (start ++ line) :: rest } t []
      else store (start ++ line) line.length 1
    | .sleepUntil time => if time ≤ clock then n.finish t 0 else .waits
    | .boundary values arguments => .went { n with values := values, arguments := arguments } t []

/-- A script that is about to run a command with arguments. -/
def start (words : List Bytes) : Machine where
  tasks := [.invoke words]
  streams := ⟨.input, .output, .complaints⟩
  values := []
  arguments := []
  status := 0
  input := []
  inputOpen := true

/-- Something is written to the script. -/
def feed (m : Machine) (bytes : Bytes) : Machine := { m with input := m.input ++ bytes }

/-- The time up to which a script sleeps. -/
def wake? (m : Machine) : Option Nat :=
  match m.tasks with
  | .sleepUntil time :: _ => some time
  | _ => none

/-- Takes at most so many steps; nothing is left of a script that has ended. -/
def perform (clock : Nat) : Nat → Machine → FileTree → Option Machine × FileTree × List Effect
  | 0, m, t => (some m, t, [])
  | fuel + 1, m, t =>
    match m.step clock t with
    | .ended => (none, t, [])
    | .waits => (some m, t, [])
    | .went m t effects =>
      let (m, t, more) := perform clock fuel m t
      (m, t, effects ++ more)

end Machine

end LanguageClient.Script
