import LanguageClient.Files.Tree

/-!
# Changes of file trees

The changes that turn one file tree into another, in an order in which they can be
made: files are removed, and folders are made before what lies in them.
-/

set_option autoImplicit false

namespace LanguageClient.FileTree

/-- A change of a file tree. -/
inductive Change where
  | remove (place : Place)
  | makeFolder (place : Place)
  | write (place : Place) (content : ByteArray)

/-- The path of a place. -/
def pathAt (place : Place) : Path := ⟨place.flatMap (Path.separator :: ·)⟩

/-- The file at a place is not there any more. -/
def removal? (after : FileTree) : Place × Node → Option Change
  | (place, .file _) => if (after.node? place).isNone then some (.remove place) else none
  | (_, .folder) => none

/-- The node at a place is new or has another content. -/
def addition? (before : FileTree) : Place × Node → Option Change
  | (place, .folder) => if (before.node? place).isNone then some (.makeFolder place) else none
  | (place, .file content) =>
    if before.node? place = some (.file content) then none else some (.write place content)

/-- The changes from one tree to another. -/
def changes (before after : FileTree) : List Change :=
  let added := (after.nodes.mergeSort fun a b => a.1.length ≤ b.1.length).filterMap
    before.addition?
  before.nodes.filterMap after.removal? ++ added

end LanguageClient.FileTree
