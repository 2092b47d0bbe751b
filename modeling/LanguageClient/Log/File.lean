import LanguageClient.Files.Locations
import LanguageClient.Files.Tree

/-!
# Log files

A log is appended to one file until that has reached a size.  Then the files are
rotated: each numbered file takes the next number, the oldest is lost, and the log
itself becomes number one.
-/

set_option autoImplicit false

namespace LanguageClient.LogFile

/-- The size at which a log is rotated. -/
def maxSize : Nat := 10 * 1024 * 1024

/-- How many rotated files are kept. -/
def maxFiles : Nat := 5

/-- The path of a rotated file. -/
def slot (log : Path) (number : Nat) : Path :=
  ⟨log.bytes ++ Utf8.encode ("." ++ toString number)⟩

/-- Makes the folder of a log. -/
def ensureFolder (log : Path) : FileWork Unit :=
  match log.parent? with
  | none => pure ()
  | some folder => if folder.bytes.isEmpty then pure () else FileWork.makeFolders folder

/-- Moves the file with a number on to the next number, if it is there. -/
def shift (log : Path) (number : Nat) : FileWork Unit := do
  if (← get).exists (slot log number) then
    FileWork.change (·.rename (slot log number) (slot log (number + 1)))

/-- Moves the files with the numbers below `count` on, the greatest number first. -/
def shiftBelow (log : Path) : Nat → FileWork Unit
  | 0 | 1 => pure ()
  | count + 2 => do
    shift log (count + 1)
    shiftBelow log (count + 1)

/-- Removes the file with a number, if it is there. -/
def drop (log : Path) (number : Nat) : FileWork Unit := do
  if (← get).exists (slot log number) then FileWork.change (·.removeFile (slot log number))

/-- Rotates a log that has reached a size; without any numbered files it is removed. -/
def rotate (log : Path) (size count : Nat) : FileWork Unit := do
  match (← get).stat log with
  | .error .notFound => pure ()
  | .error e => throw e
  | .ok node =>
    if node.size < size then pure ()
    else if count = 0 then FileWork.change (·.removeFile log)
    else do
      drop log count
      shiftBelow log count
      FileWork.change (·.rename log (slot log 1))

/-- Opens a log for appending: its folder is made and it is rotated first. -/
def «open» (log : Path) : FileWork Unit := do
  ensureFolder log
  rotate log maxSize maxFiles
  FileWork.change (·.append log .empty)

end LanguageClient.LogFile
