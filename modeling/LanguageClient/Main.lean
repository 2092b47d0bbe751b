import LanguageClient.Files.Changes
import LanguageClient.Rehearsal.Performance
import LanguageClient.Text.Timestamp
import Std.Time.DateTime.Timestamp

/-!
# The program

The files that a run looks at are read into a tree, the run is computed on it, and the
changes of the tree are made to the files.  Servers are the programs of rehearsals.
-/

set_option autoImplicit false

namespace LanguageClient.Program

/-- What there is at a path. -/
def readNode (path : String) : IO (Option Node) := do
  match ← (IO.FS.readBinFile path).toBaseIO with
  | .ok content => return some (.file content)
  | .error _ =>
    match ← (IO.FS.realPath path).toBaseIO with
    | .ok found => return if ← found.isDir then some .folder else none
    | .error _ => return none

/-- The names that lead to a path that has no dots in it. -/
def placeOf (p : Path) : Place := (Path.parts p.bytes).filter (· ≠ [])

/-- Adds what there is at a place to a tree. -/
def addNode (t : FileTree) (place : Place) : IO FileTree := do
  if (t.node? place).isSome then return t
  match ← readNode (Utf8.decodeLossy (FileTree.pathAt place).bytes) with
  | some node => return t.put place node
  | none => return t

/-- Adds what there is at paths, and on the way to them, to a tree. -/
def addPaths (t : FileTree) (folder : Path) (paths : List Path) : IO FileTree :=
  paths.foldlM (fun t p => do
    let place := placeOf (folder.join p)
    (List.range place.length).foldlM (fun t n => addNode t (place.take (n + 1))) t) t

/-- Makes a change to the files. -/
def apply : FileTree.Change → IO Unit
  | .remove place => IO.FS.removeFile (Utf8.decodeLossy (FileTree.pathAt place).bytes)
  | .makeFolder place => IO.FS.createDirAll (Utf8.decodeLossy (FileTree.pathAt place).bytes)
  | .write place content =>
    IO.FS.writeBinFile (Utf8.decodeLossy (FileTree.pathAt place).bytes) content

/-- The path in an environment setting. -/
def setting (name : String) : IO (Option Path) := do
  return (← IO.getEnv name).map Path.ofString

/-- The present moment as it stands in a log. -/
def now : IO String := do
  let moment := (← Std.Time.Timestamp.now).val
  return Text.timestamp moment.second.val.toNat (moment.nano.val.toNat / 1000)

/-- Where this run takes place. -/
def surroundings : IO CommandLine.Surroundings := do
  return {
    home := ← setting "HOME"
    configHome := ← setting "XDG_CONFIG_HOME"
    dataHome := ← setting "XDG_DATA_HOME"
    account := none
    folder := Path.ofString (← IO.currentDir).toString
    time := ← now }

/-- Asks servers about files; no sign is waited for. -/
def inquiry (t : FileTree) (s : Settings) (folder : Path) (files : List Path) :
    CommandLine.Report :=
  let w := Workspace.create 1 folder
  Performance.give s.lsp t ((w.rootAt t folder).toOption.getD w) files []

end LanguageClient.Program

open LanguageClient in
/-- Runs the program over the files that are named. -/
def main (arguments : List String) : IO UInt32 := do
  let site ← Program.surroundings
  let files := arguments.map Path.ofString
  let empty : FileTree := { FileTree.empty with current := Program.placeOf site.folder }
  let look (t : FileTree) : IO FileTree :=
    Program.addPaths t site.folder (site.folder :: CommandLine.interests site t files)
  let before ← look (← look empty)
  let outcome := CommandLine.run Program.inquiry site before files
  (before.changes outcome.files).forM Program.apply
  outcome.printed.forM fun line => IO.println line
  outcome.complaints.forM fun line => IO.eprintln line
  return UInt32.ofNat outcome.code
