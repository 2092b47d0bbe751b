import LanguageClient.Files.Tree
import Mathlib.Data.List.Basic

/-!
# Where paths lead

A path names a place by its parts alone, whatever there is in the tree.  It leads
there when the folders on the way are there and its name is not too long.
-/

set_option autoImplicit false

namespace LanguageClient

namespace Path

/-- The part of a path behind its last separator. -/
def lastPart (p : Path) : Bytes := (parts p.bytes).getLastD []

theorem parts_ne_nil (bytes : Bytes) : parts bytes ≠ [] := by
  cases bytes with
  | nil => simp [parts]
  | cons b rest =>
    simp only [parts]
    split
    · simp
    · split <;> simp

theorem parts_append_lastPart (p : Path) :
    (parts p.bytes).dropLast ++ [p.lastPart] = parts p.bytes := by
  have last : p.lastPart = (parts p.bytes).getLast (parts_ne_nil p.bytes) := by
    simp [lastPart, List.getLastD_eq_getLast?, List.getLast?_eq_getLast_of_ne_nil
      (parts_ne_nil p.bytes)]
  rw [last]
  exact List.dropLast_append_getLast (parts_ne_nil p.bytes)

/-- Bytes without a separator are a single part. -/
theorem parts_of_not_mem {bytes : Bytes} (h : separator ∉ bytes) : parts bytes = [bytes] := by
  induction bytes with
  | nil => rfl
  | cons b rest ih =>
    obtain ⟨other, later⟩ := List.ne_and_not_mem_of_not_mem_cons h
    simp [parts, Ne.symm other, ih later]

/-- Bytes without a separator behind a path lengthen its last part. -/
theorem parts_append {bytes more : Bytes} (h : separator ∉ more) :
    parts (bytes ++ more) = (parts bytes).dropLast ++ [(parts bytes).getLastD [] ++ more] := by
  induction bytes with
  | nil => simp [parts, parts_of_not_mem h]
  | cons b rest ih =>
    obtain ⟨first, others, eq⟩ := List.exists_cons_of_ne_nil (parts_ne_nil rest)
    by_cases sep : b = separator
    · simp [parts, sep, ih, eq, List.getLastD_eq_getLast?]
    · cases others with
      | nil => simp [parts, sep, ih, eq]
      | cons second others => simp [parts, sep, ih, eq, List.getLastD_eq_getLast?]

end Path

namespace FileTree

variable {t t' : FileTree} {p q : Path} {place source target : Place} {node : Node}

/-! ## Nodes -/

@[simp] theorem node?_nil (t : FileTree) : t.node? [] = some .folder := by simp [node?]

theorem node?_of_ne (h : place ≠ []) :
    t.node? place = (t.nodes.find? (·.1 = place)).map (·.2) := by simp [node?, h]

/-- Where only the root is there, no place has a file. -/
theorem node?_empty_ne_file (place : Place) (content : ByteArray) :
    empty.node? place ≠ some (.file content) := by
  by_cases root : place = []
  · simp [root]
  · simp [node?_of_ne root, empty]

theorem ne_nil_of_node? (h : t.node? place ≠ some .folder) : place ≠ [] := by
  rintro rfl
  exact h (node?_nil t)

theorem node?_put_self (h : place ≠ []) : (t.put place node).node? place = some node := by
  have gone : (t.nodes.filter (·.1 ≠ place)).find? (·.1 = place) = none := by
    simp [List.find?_eq_none]
  rw [node?_of_ne h, put, List.find?_append, gone]
  simp

theorem node?_put_of_ne {other : Place} (h : other ≠ place) :
    (t.put place node).node? other = t.node? other := by
  by_cases root : other = []
  · simp [root]
  have same : (t.nodes.filter (·.1 ≠ place)).find? (·.1 = other) =
      t.nodes.find? (·.1 = other) := by
    rw [List.find?_filter]
    congr 1
    funext e
    by_cases here : e.1 = other
    · simp [here, h]
    · simp [here]
  rw [node?_of_ne root, node?_of_ne root, put, List.find?_append, same]
  simp [Ne.symm h]

theorem node?_erase_self (h : place ≠ []) : (t.erase place).node? place = none := by
  simp [node?_of_ne h, erase, List.find?_eq_none]

theorem node?_erase_of_ne {other : Place} (h : other ≠ place) :
    (t.erase place).node? other = t.node? other := by
  by_cases root : other = []
  · simp [root]
  rw [node?_of_ne root, node?_of_ne root, erase, List.find?_filter]
  congr 2
  funext e
  by_cases here : e.1 = other
  · simp [here, h]
  · simp [here]

/-! ## Moving

A node is moved with everything inside it, so that what is said of another place holds
when neither the old place nor the new one lies on the way to it. -/

/-- What a moved tree has at a place that is not the root. -/
theorem node?_move {other : Place} (h : other ≠ []) :
    (t.move source target).node? other =
      (t.nodes.find? fun e => e.1 ≠ target ∧ movedPlace source target e.1 = other).map
        (·.2) := by
  have nodes : (t.move source target).nodes.find? (·.1 = other) =
      (t.nodes.find? fun e => e.1 ≠ target ∧ movedPlace source target e.1 = other).map
        fun e => (movedPlace source target e.1, e.2) := by
    simp [move, List.find?_map, List.find?_filter]
  rw [node?_of_ne h, nodes, Option.map_map]
  rfl

theorem movedPlace_eq_target_iff (h : place ≠ target) :
    movedPlace source target place = target ↔ place = source := by
  by_cases under : source <+: place
  · obtain ⟨rest, rfl⟩ := under
    simp [movedPlace]
  · have moved : place ≠ source := by
      rintro rfl
      exact under (List.prefix_refl place)
    simp [movedPlace, under, h, moved]

theorem movedPlace_ne_source (apart : ¬ target <+: source) :
    movedPlace source target place ≠ source := by
  by_cases under : source <+: place
  · intro back
    apply apart
    rw [movedPlace, if_pos (List.isPrefixOf_iff_prefix.2 under)] at back
    exact ⟨_, back⟩
  · rintro back
    rw [movedPlace, if_neg (by simpa using under)] at back
    exact under (back ▸ List.prefix_refl place)

theorem movedPlace_eq_iff {other : Place} (outside : ¬ source <+: other)
    (free : ¬ target <+: other) :
    movedPlace source target place = other ↔ place = other := by
  by_cases under : source <+: place
  · have elsewhere : place ≠ other := by
      rintro rfl
      exact outside under
    have moved : target ++ place.drop source.length ≠ other := by
      rintro rfl
      exact free (List.prefix_append _ _)
    simp [movedPlace, under, elsewhere, moved]
  · simp [movedPlace, under]

theorem node?_move_target (distinct : source ≠ target) (root : source ≠ [])
    (nonempty : target ≠ []) : (t.move source target).node? target = t.node? source := by
  rw [node?_move nonempty, node?_of_ne root]
  congr 2
  funext e
  by_cases there : e.1 = target
  · simp [there, Ne.symm distinct]
  · simp [there, movedPlace_eq_target_iff there]

theorem node?_move_source (root : source ≠ []) (apart : ¬ target <+: source) :
    (t.move source target).node? source = none := by
  have gone (place : Place) : movedPlace source target place ≠ source :=
    movedPlace_ne_source apart
  simp [node?_move root, gone, List.find?_eq_none]

theorem node?_move_of_not {other : Place} (outside : ¬ source <+: other)
    (free : ¬ target <+: other) : (t.move source target).node? other = t.node? other := by
  by_cases root : other = []
  · simp [root]
  have elsewhere : other ≠ target := by
    rintro rfl
    exact free (List.prefix_refl other)
  rw [node?_move root, node?_of_ne root]
  congr 2
  funext e
  by_cases here : e.1 = other
  · simp [here, elsewhere, movedPlace_eq_iff outside free]
  · simp [here, movedPlace_eq_iff outside free]

/-! ## Ways -/

/-- Where a part of a path leads from a place, whatever there is. -/
def lead (place : Place) (part : Bytes) : Place :=
  if part = [] ∨ part = [Path.dot] then place
  else if part = [Path.dot, Path.dot] then place.dropLast
  else place ++ [part]

/-- Where a path starts. -/
def start (t : FileTree) (p : Path) : Place := if p.isAbsolute then [] else t.current

/-- The place that a path names, whatever there is. -/
def destination (t : FileTree) (p : Path) : Place :=
  (Path.parts p.bytes).foldl lead (t.start p)

/-- The place in which a path names something, whatever there is. -/
def room (t : FileTree) (p : Path) : Place :=
  (Path.parts p.bytes).dropLast.foldl lead (t.start p)

/-- All that a path leads through is there, and it names something in a folder. -/
def Reaches (t : FileTree) (p : Path) : Prop :=
  t.walk p (Path.parts p.bytes).dropLast = .ok (t.room p) ∧
    t.node? (t.room p) = some .folder

/-- What is a path and names something that can be there. -/
structure Nameable (p : Path) : Prop where
  check : check p = .ok ()
  short : p.lastPart.length ≤ maxName

theorem destination_eq (t : FileTree) (p : Path) :
    t.destination p = lead (t.room p) p.lastPart := by
  rw [destination, ← p.parts_append_lastPart, List.foldl_append]
  rfl

theorem enter_eq_ok_iff {part : Bytes} {next : Place} :
    t.enter place part = .ok next ↔
      t.node? place = some .folder ∧ part.length ≤ maxName ∧ lead place part = next := by
  unfold enter lead
  split
  case h_1 missing => simp [missing]
  case h_2 file => simp [file]
  case h_3 folder =>
    by_cases stay : part = [] ∨ part = [Path.dot]
    · have short : part.length ≤ maxName := by
        rcases stay with rfl | rfl <;> decide
      simp [folder, stay, short]
    by_cases up : part = [Path.dot, Path.dot]
    · subst up
      simp [folder, maxName, Path.dot]
    · by_cases long : maxName < part.length
      · simp [stay, up, long, Nat.not_le.2 long]
      · simp [folder, stay, up, long, Nat.not_lt.1 long]

theorem walk_append (parts : List Bytes) (part : Bytes) :
    t.walk p (parts ++ [part]) = t.walk p parts >>= fun place => t.enter place part := by
  simp [walk, List.foldlM_append]

theorem foldl_lead_of_foldlM {parts : List Bytes} {target : Place}
    (h : parts.foldlM t.enter place = .ok target) : parts.foldl lead place = target := by
  induction parts generalizing place with
  | nil =>
    cases h
    rfl
  | cons part parts ih =>
    rw [List.foldlM_cons] at h
    cases entered : t.enter place part with
    | error e => simp [entered, bind, Except.bind] at h
    | ok next =>
      have step : lead place part = next := (enter_eq_ok_iff.1 entered).2.2
      rw [List.foldl_cons, step]
      apply ih
      simpa [entered, bind, Except.bind] using h

theorem walk_eq_ok {parts : List Bytes} (h : t.walk p parts = .ok place) :
    parts.foldl lead (t.start p) = place := foldl_lead_of_foldlM h

theorem resolve_eq_ok_iff :
    t.resolve p = .ok place ↔ Nameable p ∧ t.Reaches p ∧ t.destination p = place := by
  have walked : t.walk p (Path.parts p.bytes) =
      t.walk p (Path.parts p.bytes).dropLast >>= fun room => t.enter room p.lastPart := by
    rw [← walk_append, p.parts_append_lastPart]
  constructor
  · intro h
    cases checked : check p with
    | error e => simp [resolve, checked, bind, Except.bind] at h
    | ok _ =>
      cases there : t.walk p (Path.parts p.bytes).dropLast with
      | error e => simp [resolve, checked, walked, there, bind, Except.bind] at h
      | ok room =>
        have named : t.room p = room := walk_eq_ok there
        have entered : t.enter room p.lastPart = .ok place := by
          simpa [resolve, checked, walked, there, bind, Except.bind] using h
        obtain ⟨folder, short, leads⟩ := enter_eq_ok_iff.1 entered
        refine ⟨⟨checked, short⟩, ⟨?_, ?_⟩, ?_⟩
        · rw [there, named]
        · rw [named, folder]
        · rw [destination_eq, named, leads]
  · rintro ⟨⟨checked, short⟩, ⟨there, folder⟩, rfl⟩
    have entered : t.enter (t.room p) p.lastPart = .ok (t.destination p) :=
      enter_eq_ok_iff.2 ⟨folder, short, (destination_eq t p).symm⟩
    simp [resolve, checked, walked, there, entered, bind, Except.bind]

theorem stat_eq_ok_iff :
    t.stat p = .ok node ↔
      Nameable p ∧ t.Reaches p ∧ t.node? (t.destination p) = some node := by
  constructor
  · intro h
    cases resolved : t.resolve p with
    | error e => simp [stat, resolved, bind, Except.bind] at h
    | ok place =>
      obtain ⟨nameable, reached, rfl⟩ := resolve_eq_ok_iff.1 resolved
      refine ⟨nameable, reached, ?_⟩
      cases there : t.node? (t.destination p) with
      | none => simp [stat, resolved, there, bind, Except.bind] at h
      | some found => simpa [stat, resolved, there, bind, Except.bind] using h
  · rintro ⟨nameable, reached, there⟩
    have resolved : t.resolve p = .ok (t.destination p) :=
      resolve_eq_ok_iff.2 ⟨nameable, reached, rfl⟩
    simp [stat, resolved, there, bind, Except.bind]

theorem exists_iff :
    t.exists p = true ↔ ∃ node, t.stat p = .ok node := by
  cases found : t.stat p with
  | error e => simp [«exists», found]
  | ok node => simp [«exists», found]

theorem exists_of_resolve (resolved : t.resolve p = .ok place)
    (there : t.node? place = some node) : t.exists p = true := by
  obtain ⟨nameable, reached, rfl⟩ := resolve_eq_ok_iff.1 resolved
  exact exists_iff.2 ⟨node, stat_eq_ok_iff.2 ⟨nameable, reached, there⟩⟩

theorem read_eq_ok_iff {content : ByteArray} :
    t.read p = .ok content ↔ t.stat p = .ok (.file content) := by
  cases found : t.stat p with
  | error e => simp [read, found, bind, Except.bind]
  | ok node => cases node <;> simp [read, found, bind, Except.bind]

/-! ## Trees with the same folders -/

/-- A tree with all the folders of another, seen from the same one. -/
structure HasFoldersOf (t' t : FileTree) : Prop where
  current : t'.current = t.current
  folder : ∀ place, t.node? place = some .folder → t'.node? place = some .folder

theorem room_congr (h : t'.current = t.current) (p : Path) : t'.room p = t.room p := by
  simp [room, start, h]

theorem destination_congr (h : t'.current = t.current) (p : Path) :
    t'.destination p = t.destination p := by
  simp [destination, start, h]

theorem HasFoldersOf.walk (h : t'.HasFoldersOf t) {parts : List Bytes}
    (ok : t.walk p parts = .ok place) : t'.walk p parts = .ok place := by
  suffices along : ∀ from' : Place, parts.foldlM t.enter from' = .ok place →
      parts.foldlM t'.enter from' = .ok place by
    have := along _ ok
    rw [← h.current] at this
    exact this
  clear ok
  induction parts with
  | nil => exact fun _ ok => ok
  | cons part parts ih =>
    intro from' ok
    rw [List.foldlM_cons] at ok ⊢
    cases entered : t.enter from' part with
    | error e => simp [entered, bind, Except.bind] at ok
    | ok next =>
      obtain ⟨folder, rest⟩ := enter_eq_ok_iff.1 entered
      have entered' : t'.enter from' part = .ok next :=
        enter_eq_ok_iff.2 ⟨h.folder _ folder, rest⟩
      simp only [entered, entered', bind, Except.bind] at ok ⊢
      exact ih next ok

theorem Reaches.of_hasFoldersOf (reached : t.Reaches p) (h : t'.HasFoldersOf t) :
    t'.Reaches p := by
  rw [Reaches, room_congr h.current]
  exact ⟨h.walk reached.1, h.folder _ reached.2⟩

end FileTree

end LanguageClient
