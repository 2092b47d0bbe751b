import LanguageClient.Proofs.Files.Folders
import Mathlib.Data.List.Find

/-!
# Removing and moving files

In a well-formed tree nothing lies inside a file.  So a file that is removed or moved to a free
place in a folder takes nothing with it: the tree changes at its place and at the place that it
goes to, all folders stay, and the tree stays well formed.
-/

set_option autoImplicit false

namespace LanguageClient.FileTree

variable {t t' : FileTree} {p q : Path} {place source target : Place} {content : ByteArray}
  {node : Node}

theorem node?_ne_none_of_mem {e : Place × Node} (there : e ∈ t.nodes) : t.node? e.1 ≠ none := by
  by_cases root : e.1 = []
  · simp [root]
  · rw [node?_of_ne root, ne_eq, Option.map_eq_none_iff, List.find?_eq_none]
    exact fun none => none e there (by simp)

/-- A path whose last part leads further ends with a name. -/
theorem endsWithName_of_destination (further : t.destination p = t.room p ++ [p.lastPart]) :
    endsWithName p = true := by
  rw [destination_eq] at further
  have filled : p.lastPart ≠ [] := by
    intro none
    simp [lead, none] at further
  have stays : p.lastPart ≠ [Path.dot] := by
    intro dot
    simp [lead, dot] at further
  have down : p.lastPart ≠ [Path.dot, Path.dot] := by
    intro up
    rw [up, lead_up] at further
    have shorter := congrArg List.length further
    rw [List.length_dropLast, List.length_append, List.length_singleton] at shorter
    omega
  have parts : backwards p = p.lastPart :: (Path.parts p.bytes).dropLast.reverse := by
    rw [backwards, ← p.parts_append_lastPart, List.reverse_append, List.reverse_singleton,
      List.singleton_append, List.dropWhile_cons_of_neg (by simpa using filled),
      List.dropLast_concat]
  simp [endsWithName, parts, stays, down]

/-! ## Files that go -/

theorem WellFormed.of_hasFoldersOf (folders : t'.HasFoldersOf t)
    (within : ∀ place name, t'.node? (place ++ [name]) ≠ none → t.node? place = some .folder) :
    t'.WellFormed :=
  fun place name there => folders.folder place (within place name there)

theorem hasFoldersOf_erase (file : t.node? place ≠ some .folder) :
    (t.erase place).HasFoldersOf t := by
  refine ⟨rfl, fun other folder => ?_⟩
  have elsewhere : other ≠ place := by
    rintro rfl
    exact file folder
  rw [node?_erase_of_ne elsewhere, folder]

theorem WellFormed.erase (whole : t.WellFormed) (file : t.node? place ≠ some .folder) :
    (t.erase place).WellFormed := by
  refine .of_hasFoldersOf (hasFoldersOf_erase file) fun above name there => ?_
  by_cases here : above ++ [name] = place
  · rw [here, node?_erase_self (by simp [← here])] at there
    exact absurd rfl there
  · rw [node?_erase_of_ne here] at there
    exact whole above name there

/-- A path to a file ends with the name of the file. -/
theorem WellFormed.destination_of_file (whole : t.WellFormed)
    (file : t.stat p = .ok (.file content)) : t.destination p = t.room p ++ [p.lastPart] := by
  obtain ⟨-, ⟨-, folder⟩, there⟩ := stat_eq_ok_iff.mp file
  rw [destination_eq, lead] at there ⊢
  split at there
  · rw [folder] at there
    cases there
  · split at there
    · rw [whole.folder_dropLast folder] at there
      cases there
    · rename_i goes down
      rw [if_neg goes, if_neg down]

/-- A file moves alone. -/
theorem WellFormed.node?_move (whole : t.WellFormed) (file : t.node? source = some (.file content))
    {other : Place} (left : other ≠ source) (reached : other ≠ target) :
    (t.move source target).node? other = t.node? other := by
  by_cases root : other = []
  · simp [root]
  rw [FileTree.node?_move root, node?_of_ne root]
  congr 1
  -- Of the nodes of the tree, none but the file itself gets another place.
  refine List.find?_congr fun e there => ?_
  by_cases under : source <+: e.1
  · have here : e.1 = source := by
      by_contra inside
      have folder := whole.folder_of_prefix under (Ne.symm inside) (node?_ne_none_of_mem there)
      rw [file] at folder
      cases folder
    have moved : movedPlace source target source = target := by simp [movedPlace]
    simp [here, moved, Ne.symm left, Ne.symm reached]
  · have stays : movedPlace source target e.1 = e.1 := by simp [movedPlace, under]
    rw [stays]
    by_cases here : e.1 = other
    · simp [here, reached]
    · simp [here]

theorem WellFormed.hasFoldersOf_move (whole : t.WellFormed)
    (file : t.node? source = some (.file content)) (free : t.node? target = none) :
    (t.move source target).HasFoldersOf t := by
  refine ⟨rfl, fun other folder => ?_⟩
  have left : other ≠ source := by
    rintro rfl
    rw [file] at folder
    cases folder
  have reached : other ≠ target := by
    rintro rfl
    rw [free] at folder
    cases folder
  rw [whole.node?_move file left reached, folder]

theorem WellFormed.move (whole : t.WellFormed) (file : t.node? source = some (.file content))
    (free : t.node? target = none) (room : t.node? target.dropLast = some .folder)
    (apart : ¬ target <+: source) : (t.move source target).WellFormed := by
  refine .of_hasFoldersOf (whole.hasFoldersOf_move file free) fun above name there => ?_
  by_cases here : above ++ [name] = target
  · rwa [← here, List.dropLast_concat] at room
  by_cases left : above ++ [name] = source
  · rw [left, node?_move_source (by simp [← left]) apart] at there
    exact absurd rfl there
  · rw [whole.node?_move file left here] at there
    exact whole above name there

/-! ## Operations that succeed -/

theorem removeFile_of_stat (file : t.stat p = .ok (.file content)) :
    t.removeFile p = .ok (t.erase (t.destination p)) := by
  obtain ⟨nameable, reached, there⟩ := stat_eq_ok_iff.mp file
  have resolved : t.resolve p = .ok (t.destination p) :=
    resolve_eq_ok_iff.mpr ⟨nameable, reached, rfl⟩
  simp [removeFile, resolved, there, bind, Except.bind]

theorem removeFile_of_folder (folder : t.stat p = .ok .folder) :
    t.removeFile p = .error .isDirectory := by
  obtain ⟨nameable, reached, there⟩ := stat_eq_ok_iff.mp folder
  have resolved : t.resolve p = .ok (t.destination p) :=
    resolve_eq_ok_iff.mpr ⟨nameable, reached, rfl⟩
  simp [removeFile, resolved, there, bind, Except.bind]

theorem rename_of_resolve_error {e : IoError} (found : t.resolve p = .ok source)
    (refused : t.resolve q = .error e) : t.rename p q = .error e := by
  simp [rename, found, refused, bind, Except.bind]

/-- A file can be renamed where there is nothing. -/
theorem rename_of_free (file : t.stat p = .ok (.file content))
    (named : endsWithName p = true) (named' : endsWithName q = true)
    (resolved : t.resolve q = .ok (t.destination q)) (free : t.node? (t.destination q) = none)
    (apart : ¬ t.destination p <+: t.destination q) :
    t.rename p q = .ok (t.move (t.destination p) (t.destination q)) := by
  obtain ⟨nameable, reached, there⟩ := stat_eq_ok_iff.mp file
  have source : t.resolve p = .ok (t.destination p) :=
    resolve_eq_ok_iff.mpr ⟨nameable, reached, rfl⟩
  have distinct : t.destination p ≠ t.destination q := by
    intro same
    exact apart (same ▸ List.prefix_refl _)
  simp [rename, source, resolved, named, named', there, distinct, apart, mayReplace, free, bind,
    Except.bind]

end LanguageClient.FileTree
