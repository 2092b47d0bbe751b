import LanguageClient.Text.Utf8

/-!
# File paths

A path is a sequence of bytes.  Its components leave out empty parts, and parts
that are a single dot except in front of a relative path; two paths are the same
document when their components agree.
-/

set_option autoImplicit false

namespace LanguageClient

/-- A file path as it is written. -/
structure Path where
  bytes : Bytes
  deriving DecidableEq, Repr, Inhabited

namespace Path

/-- The byte that separates the parts of a path. -/
def separator : UInt8 := 47

/-- The byte of a dot. -/
def dot : UInt8 := 46

/-- A part of a path that counts. -/
inductive Component where
  | root
  | current
  | parent
  | normal (name : Bytes)
  deriving DecidableEq, Repr

/-- The parts between separators; there is always at least one. -/
def parts : Bytes → List Bytes
  | [] => [[]]
  | b :: rest =>
    if b = separator then [] :: parts rest
    else match parts rest with
      | [] => [[b]]
      | first :: others => (b :: first) :: others

/-- The component of a part that is not in front. -/
def component? (part : Bytes) : Option Component :=
  if part = [] ∨ part = [dot] then none
  else if part = [dot, dot] then some .parent
  else some (.normal part)

/-- Whether the path starts at the root. -/
def isAbsolute (p : Path) : Bool := p.bytes.head? == some separator

/-- The components of a path. -/
def components (p : Path) : List Component :=
  let ps := parts p.bytes
  let front : List Component :=
    if p.isAbsolute then [.root] else if ps.head? == some [dot] then [.current] else []
  front ++ ps.filterMap component?

/-- Whether two paths have the same components. -/
def same (p q : Path) : Bool := p.components == q.components

/-- The path of a text. -/
def ofString (s : String) : Path := ⟨Utf8.encode s⟩

/-- The path as it is shown: broken characters are replaced. -/
def display (p : Path) : String := Utf8.decodeLossy p.bytes

/-- Appends a path; an absolute one takes the place of the first. -/
def join (p q : Path) : Path :=
  if q.isAbsolute then q
  else if p.bytes = [] ∨ p.bytes.getLast? = some separator then ⟨p.bytes ++ q.bytes⟩
  else ⟨p.bytes ++ separator :: q.bytes⟩

/-- Appends a path given as a text. -/
def child (p : Path) (name : String) : Path := p.join (ofString name)

/-- The last component, if it is a name. -/
def fileName? (p : Path) : Option Bytes :=
  match p.components.getLast? with
  | some (.normal name) => some name
  | _ => none

/-- What follows the last dot of a file name; a dot in front does not count. -/
def extension? (p : Path) : Option Bytes :=
  p.fileName?.bind fun name =>
    let tail := name.reverse.takeWhile (· ≠ dot)
    match name.reverse.dropWhile (· ≠ dot) with
    | [] | [_] => none
    | _ => some tail.reverse

/-- Parts joined by separators. -/
def joinParts : List Bytes → Bytes
  | [] => []
  | [part] => part
  | part :: rest => part ++ separator :: joinParts rest

/-- Parts without those at the end that do not count. -/
def trimParts (ps : List Bytes) : List Bytes :=
  (ps.reverse.dropWhile fun part => (component? part).isNone).reverse

/-- The path without its last component, as far as it was written; nothing for the
root and for the empty path. -/
def parent? (p : Path) : Option Path :=
  let (front, body) :=
    if p.isAbsolute then (p.bytes.take 1, p.bytes.drop 1)
    else match parts p.bytes with
      | first :: _ => if first = [dot] then (p.bytes.take 1, p.bytes.drop 1) else ([], p.bytes)
      | [] => ([], p.bytes)
  match (trimParts (parts body)).reverse with
  | [] => if front = [dot] then some ⟨[]⟩ else none
  | _ :: rest => some ⟨front ++ joinParts (trimParts rest.reverse)⟩

/-- The path and the paths it lies under, nearest first. -/
def ancestors (p : Path) : List Path :=
  go (p.bytes.length + 1) p
where
  /-- Steps to the parent at most as often as the fuel says. -/
  go : Nat → Path → List Path
    | 0, p => [p]
    | fuel + 1, p => p :: (p.parent?.elim [] (go fuel))

end Path

end LanguageClient
