import LanguageClient.Files.IoError
import LanguageClient.Path.Basic

/-!
# File trees

A file tree says which folders and files there are.  Every node has a place, the
list of the names that lead to it from the root; the operations take paths as they
are written, resolve them name by name, and fail as an operating system would.
-/

set_option autoImplicit false

namespace LanguageClient

/-- A file or a folder. -/
inductive Node where
  | file (content : ByteArray)
  | folder

/-- Files are equal when their contents are. -/
instance : DecidableEq Node := fun
  | .file a, .file b => decidable_of_iff (a.data = b.data)
    ⟨fun same => congrArg Node.file (ByteArray.ext same),
      fun same => congrArg ByteArray.data (Node.file.inj same)⟩
  | .folder, .folder => isTrue rfl
  | .file _, .folder | .folder, .file _ => isFalse nofun

/-- The size of a folder, as it is shown. -/
def Node.folderSize : Nat := 4096

/-- The size of a node. -/
def Node.size : Node → Nat
  | .file content => content.size
  | .folder => folderSize

/-- The names that lead to a node from the root. -/
abbrev Place := List Bytes

/-- The files and folders of a machine, seen from a working folder. -/
structure FileTree where
  /-- The working folder. -/
  current : Place
  /-- All nodes but the root, each place once. -/
  nodes : List (Place × Node)

namespace FileTree

/-- The tree that has only the root. -/
def empty : FileTree := ⟨[], []⟩

/-- The node at a place; the root is always a folder. -/
def node? (t : FileTree) (place : Place) : Option Node :=
  if place = [] then some .folder
  else (t.nodes.find? (·.1 = place)).map (·.2)

/-- Puts a node at a place. -/
def put (t : FileTree) (place : Place) (node : Node) : FileTree :=
  { t with nodes := t.nodes.filter (·.1 ≠ place) ++ [(place, node)] }

/-- Removes the node at a place. -/
def erase (t : FileTree) (place : Place) : FileTree :=
  { t with nodes := t.nodes.filter (·.1 ≠ place) }

/-- The nodes inside a place. -/
def inside (t : FileTree) (place : Place) : List (Place × Node) :=
  t.nodes.filter fun e => place.isPrefixOf e.1 && e.1 ≠ place

/-- The greatest length of a name, in bytes. -/
def maxName : Nat := 255

/-- The least length of a path that is refused, in bytes. -/
def pathLimit : Nat := 4096

/-- One part of a path, seen from a folder that has to be there. -/
def enter (t : FileTree) (place : Place) (part : Bytes) : Except IoError Place :=
  match t.node? place with
  | none => .error .notFound
  | some (.file _) => .error .notDirectory
  | some .folder =>
    if part = [] ∨ part = [Path.dot] then .ok place
    else if part = [Path.dot, Path.dot] then .ok place.dropLast
    else if maxName < part.length then .error .nameTooLong
    else .ok (place ++ [part])

/-- Refuses what is no path. -/
def check (p : Path) : Except IoError Unit :=
  if 0 ∈ p.bytes then .error .nulInName
  else if p.bytes = [] then .error .notFound
  else if pathLimit ≤ p.bytes.length then .error .nameTooLong
  else .ok ()

/-- The place that the parts of a path lead to. -/
def walk (t : FileTree) (p : Path) (parts : List Bytes) : Except IoError Place :=
  parts.foldlM t.enter (if p.isAbsolute then [] else t.current)

/-- The place that a path leads to.  All but the last part must be there, and a path
that ends with a separator or a dot leads through the folder that it names. -/
def resolve (t : FileTree) (p : Path) : Except IoError Place := do
  check p
  t.walk p (Path.parts p.bytes)

/-- The node that a path leads to. -/
def stat (t : FileTree) (p : Path) : Except IoError Node := do
  let place ← t.resolve p
  match t.node? place with
  | some node => .ok node
  | none => .error .notFound

/-- Whether there is anything at a path. -/
def «exists» (t : FileTree) (p : Path) : Bool :=
  match t.stat p with
  | .ok _ => true
  | .error _ => false

/-- Whether there is a file at a path. -/
def isFile (t : FileTree) (p : Path) : Bool :=
  match t.stat p with
  | .ok (.file _) => true
  | _ => false

/-- Whether there is a folder at a path. -/
def isFolder (t : FileTree) (p : Path) : Bool :=
  match t.stat p with
  | .ok .folder => true
  | _ => false

/-- The content of the file at a path. -/
def read (t : FileTree) (p : Path) : Except IoError ByteArray := do
  match ← t.stat p with
  | .file content => .ok content
  | .folder => .error .isDirectory

/-- The content of the file at a path as a text. -/
def readText (t : FileTree) (p : Path) : Except IoError String := do
  match Utf8.decode? (← t.read p).toList with
  | some s => .ok s
  | none => .error .notText

/-- The parts of a path backwards, without the separators at its end. -/
def backwards (p : Path) : List Bytes := (Path.parts p.bytes).reverse.dropWhile (· = [])

/-- Where a new node at a path would be: a path that ends with a separator cannot name a
file, whether there is one or not. -/
def placeForFile (t : FileTree) (p : Path) : Except IoError Place := do
  check p
  if (Path.parts p.bytes).getLast? = some [] then
    let _ ← t.walk p (([Path.dot] :: (backwards p).drop 1).reverse)
    .error .isDirectory
  else t.resolve p

/-- Changes the content of the file at a path, which is made if it is not there. -/
def change (t : FileTree) (p : Path) (f : ByteArray → ByteArray) : Except IoError FileTree := do
  let place ← t.placeForFile p
  match t.node? place with
  | some .folder => .error .isDirectory
  | some (.file content) => .ok (t.put place (.file (f content)))
  | none => .ok (t.put place (.file (f .empty)))

/-- Replaces the content of the file at a path. -/
def write (t : FileTree) (p : Path) (content : ByteArray) : Except IoError FileTree :=
  t.change p fun _ => content

/-- Adds to the content of the file at a path. -/
def append (t : FileTree) (p : Path) (content : ByteArray) : Except IoError FileTree :=
  t.change p (· ++ content)

/-- The path without the separators at its end. -/
def trimmed (p : Path) : Path := ⟨(p.bytes.reverse.dropWhile (· = Path.separator)).reverse⟩

/-- Makes a folder. -/
def makeFolder (t : FileTree) (p : Path) : Except IoError FileTree := do
  check p
  if (trimmed p).bytes = [] then .error .alreadyExists
  else
    let place ← t.resolve (trimmed p)
    match t.node? place with
    | some _ => .error .alreadyExists
    | none => .ok (t.put place .folder)

/-- Removes the file at a path. -/
def removeFile (t : FileTree) (p : Path) : Except IoError FileTree := do
  let place ← t.resolve p
  match t.node? place with
  | none => .error .notFound
  | some .folder => .error .isDirectory
  | some (.file _) => .ok (t.erase place)

/-- Whether a node may take the place of another. -/
def mayReplace (t : FileTree) (place : Place) (node : Node) : Except IoError Unit :=
  match t.node? place, node with
  | none, _ | some (.file _), .file _ => .ok ()
  | some .folder, .file _ => .error .isDirectory
  | some (.file _), .folder => .error .notDirectory
  | some .folder, .folder => if (t.inside place).isEmpty then .ok () else .error .notEmpty

/-- The place of a node after the node at `source` has moved to `target`. -/
def movedPlace (source target place : Place) : Place :=
  if source.isPrefixOf place then target ++ place.drop source.length else place

/-- Moves a node, with everything inside it, to another place. -/
def move (t : FileTree) (source target : Place) : FileTree :=
  { t with nodes := (t.nodes.filter (·.1 ≠ target)).map fun e =>
      (movedPlace source target e.1, e.2) }

/-- Whether a path ends with the name of what it leads to. -/
def endsWithName (p : Path) : Bool :=
  match backwards p with
  | [] => false
  | part :: _ => part ≠ [Path.dot] ∧ part ≠ [Path.dot, Path.dot]

/-- Renames a file or folder. -/
def rename (t : FileTree) (p q : Path) : Except IoError FileTree := do
  let source ← t.resolve p
  let target ← t.resolve q
  if !(endsWithName p && endsWithName q) then .error .busy
  else match t.node? source with
  | none => .error .notFound
  | some node =>
    if source = target then .ok t
    else if source.isPrefixOf target then .error .invalidArgument
    else do
      t.mayReplace target node
      .ok (t.move source target)

end FileTree

/-- Work on files: it may fail, and what was done before a failure stays done. -/
abbrev FileWork (α : Type) := ExceptT IoError (StateM FileTree) α

namespace FileWork

/-- A single change. -/
def change (f : FileTree → Except IoError FileTree) : FileWork Unit := do
  match f (← get) with
  | .ok t => set t
  | .error e => throw e

/-- What comes of work on a tree, and the tree afterwards. -/
def on {α : Type} (work : FileWork α) (t : FileTree) : Except IoError α × FileTree :=
  StateT.run (ExceptT.run work) t

/-- Makes a folder, or finds it there. -/
def makeOrFind (p : Path) : FileWork Unit := do
  let t ← get
  match t.makeFolder p with
  | .ok t => set t
  | .error e => if t.isFolder p then pure () else throw e

/-- Makes a folder and those it lies in, looking at most so many folders up. -/
def makeFoldersWithin : Nat → Path → FileWork Unit
  | 0, _ => throw .notFound
  | fuel + 1, p => do
    if p.bytes = [] then pure ()
    else if (← get).makeFolder p matches .error .notFound then
      match p.parent? with
      | none => throw (.other "failed to create whole tree")
      | some above => do
        makeFoldersWithin fuel above
        makeOrFind p
    else makeOrFind p

/-- Makes a folder and those it lies in, as far as they are not there. -/
def makeFolders (p : Path) : FileWork Unit :=
  makeFoldersWithin (p.bytes.length + 1) p

end FileWork

end LanguageClient
