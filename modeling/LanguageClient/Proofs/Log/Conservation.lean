import LanguageClient.Proofs.Log.Shifting

/-!
# What a log keeps

Whatever is written to a log stays in its files until five later rotations have pushed it
out: the files, read from the greatest number down to the log itself, are always an end of
all that was written.
-/

set_option autoImplicit false

namespace LanguageClient.LogFile

open FileTree (Nameable HasMoreFolders contentAt stat_eq_ok_iff)

variable {log : Path} {t t' : FileTree} {size count i j : Nat} {bytes : ByteArray}

/-! ## What can be read -/

/-- The bytes that are read from a file of a log, none if it cannot be read. -/
def held (t : FileTree) (log : Path) (number : Nat) : Bytes :=
  match t.read (numbered log number) with
  | .ok content => content.data.toList
  | .error _ => []

theorem held_of_not_reaches (h : ¬ t.Reaches log) (number : Nat) : held t log number = [] := by
  unfold held
  split
  case h_1 content read =>
    obtain ⟨-, reached, -⟩ := stat_eq_ok_iff.1 (FileTree.read_eq_ok_iff.1 read)
    exact absurd ((reaches_numbered_iff t log number).1 reached) h
  case h_2 => rfl

theorem Sound.held_of_reaches (sound : Sound size count log t) (h : t.Reaches log)
    (le : i ≤ count) : held t log i = stored t log i := by
  by_cases file : ∃ content, t.node? (place t log i) = some (.file content)
  · obtain ⟨content, there⟩ := file
    have found : t.stat (numbered log i) = .ok (.file content) :=
      stat_eq_ok_iff.2
        ⟨sound.nameable i le content there, (reaches_numbered_iff t log i).2 h, there⟩
    simp [held, FileTree.read_eq_ok_iff.2 found, stored, contentAt, there]
  · rw [stored_eq_nil (not_exists.1 file), held]
    split
    case h_1 content read =>
      obtain ⟨-, -, there⟩ := stat_eq_ok_iff.1 (FileTree.read_eq_ok_iff.1 read)
      exact absurd ⟨content, there⟩ file
    case h_2 => rfl

theorem Sound.oldestFirst_held (sound : Sound size count log t) (h : t.Reaches log) :
    oldestFirst (held t log) count = oldestFirst (stored t log) count :=
  oldestFirst_congr fun _ => sound.held_of_reaches h

theorem Sound.oldestFirst_held_suffix (sound : Sound size count log t) :
    oldestFirst (held t log) count <:+ oldestFirst (stored t log) count := by
  by_cases reached : t.Reaches log
  · exact (sound.oldestFirst_held reached) ▸ List.suffix_refl _
  · rw [oldestFirst_eq_nil fun j _ => held_of_not_reaches reached j]
    exact List.nil_suffix

/-! ## Opening a log -/

theorem ensureFolder_hasMoreFolders (log : Path) (t : FileTree) :
    ((ensureFolder log).on t).2.HasMoreFolders t := by
  unfold ensureFolder
  split
  · exact HasMoreFolders.refl t
  · split
    · exact HasMoreFolders.refl t
    · exact FileWork.makeFolders_hasMoreFolders _

theorem stored_of_hasMoreFolders (h : t'.HasMoreFolders t) : stored t' log = stored t log := by
  funext number
  rw [stored, stored, place_congr h.current, h.contentAt]

theorem Sound.of_hasMoreFolders (sound : Sound size count log t) (h : t'.HasMoreFolders t) :
    Sound size count log t' := by
  apply sound.of_files h.current
  intro i content there
  rcases h.node (place t log i) with same | ⟨-, made⟩
  · rw [← same, there]
  · rw [made] at there
    cases there

/-- Opening a log begins a rotation. -/
def begins (log : Path) (t : FileTree) : Bool :=
  match (ensureFolder log).on t with
  | (.ok _, t') => due log maxSize t'
  | (.error _, _) => false

/-- What happens to the files of a log while it is opened, as far as that goes. -/
structure Prepared (log : Path) (t t' : FileTree) : Prop where
  rotated : Rotated maxSize maxFiles log t t'
  still : begins log t = false → stored t' log = stored t log

/-- Making folders before a rotation changes no file. -/
theorem Rotated.after_folders {t'' : FileTree} (h : Rotated size count log t' t'')
    (folders : t'.HasMoreFolders t) : Rotated size count log t t'' := by
  have same : stored t' log = stored t log := stored_of_hasMoreFolders folders
  exact ⟨h.current.trans folders.current, h.sound, same ▸ h.suffix, same ▸ h.whole,
    same ▸ h.each⟩

/-- A log is opened when its folder is made, it is rotated, and it can be appended to. -/
theorem open_on {t₁ t₂ t₃ : FileTree} (made : (ensureFolder log).on t = (.ok (), t₁))
    (turned : (LogFile.rotate log maxSize maxFiles).on t₁ = (.ok (), t₂))
    (touched : t₂.append log .empty = .ok t₃) : (LogFile.open log).on t = (.ok (), t₃) := by
  rw [LogFile.open, FileWork.on_bind_ok made, FileWork.on_bind_ok turned, FileWork.on_change,
    touched]

theorem Sound.open (sound : Sound maxSize maxFiles log t) :
    ∃ t₁, Prepared log t t₁ ∧
      ((∃ e, (LogFile.open log).on t = (.error e, t₁)) ∨
        ∃ t₂, (LogFile.open log).on t = (.ok (), t₂) ∧ t₁.append log .empty = .ok t₂) := by
  have folders := ensureFolder_hasMoreFolders log t
  rw [LogFile.open]
  rcases made : (ensureFolder log).on t with ⟨e | ok, t₀⟩
  · rw [made] at folders
    rw [FileWork.on_bind_error made]
    exact ⟨t₀, ⟨(sound.of_hasMoreFolders folders).rotated.after_folders folders,
      fun _ => stored_of_hasMoreFolders folders⟩, .inl ⟨e, rfl⟩⟩
  rw [made] at folders
  rw [FileWork.on_bind_ok made]
  have rotated := (sound.of_hasMoreFolders folders).rotate (by decide)
  have prepared : Prepared log t ((LogFile.rotate log maxSize maxFiles).on t₀).2 := by
    refine ⟨rotated.after_folders folders, fun idle => ?_⟩
    have early : due log maxSize t₀ = false := by simpa [begins, made] using idle
    rw [rotate_of_not_due early]
    exact stored_of_hasMoreFolders folders
  rcases turned : (LogFile.rotate log maxSize maxFiles).on t₀ with ⟨e | ok, t₁⟩
  · rw [turned] at prepared
    rw [FileWork.on_bind_error turned]
    exact ⟨t₁, prepared, .inl ⟨e, rfl⟩⟩
  rw [turned] at prepared
  rw [FileWork.on_bind_ok turned, FileWork.on_change]
  refine ⟨t₁, prepared, ?_⟩
  cases t₁.append log .empty with
  | error e => exact .inl ⟨e, rfl⟩
  | ok t₂ => exact .inr ⟨t₂, rfl, rfl⟩

/-! ## Writing to a log -/

/-- Bytes have been added to a log. -/
structure Written (log : Path) (bytes : ByteArray) (t t' : FileTree) : Prop where
  current : t'.current = t.current
  named : log.lastPart ≠ []
  nameable : Nameable log
  reached : t'.Reaches log
  file : t'.node? (place t log 0) = some (.file (t.contentAt (place t log 0) ++ bytes))
  others : ∀ j, t'.node? (place t log (j + 1)) = t.node? (place t log (j + 1))

theorem written_of_append (h : t.append log bytes = .ok t') : Written log bytes t t' := by
  obtain ⟨named, resolved, free, rfl⟩ := FileTree.change_eq_ok_iff.1 h
  obtain ⟨nameable, reached, -⟩ := FileTree.resolve_eq_ok_iff.1 resolved
  refine ⟨rfl, named, nameable, reached.of_hasFoldersOf (FileTree.hasFoldersOf_put free), ?_, ?_⟩
  · exact FileTree.node?_put_self (FileTree.ne_nil_of_node? free)
  · intro j
    exact FileTree.node?_put_of_ne (place_ne t log (Nat.succ_ne_zero j))

theorem Written.stored_zero (h : Written log bytes t t') :
    stored t' log 0 = stored t log 0 ++ bytes.data.toList := by
  simp [stored, contentAt, place_congr h.current, h.file]

theorem Written.stored_succ (h : Written log bytes t t') (j : Nat) :
    stored t' log (j + 1) = stored t log (j + 1) :=
  stored_of_node? h.current (h.others j)

theorem Written.sound (h : Written log bytes t t') (sound : Sound size count log t) :
    Sound size count log t' := by
  constructor
  · intro i le content there
    cases i with
    | zero => exact h.nameable
    | succ i =>
      rw [place_congr h.current, h.others] at there
      exact sound.nameable (i + 1) le content there
  · intro i lt content there
    rw [place_congr h.current, h.others] at there
    exact sound.full i lt content there

/-- What has been written to once can be written to again. -/
theorem Written.append (h : Written log bytes t t') (more : ByteArray) :
    ∃ t'', t'.append log more = .ok t'' := by
  have resolved : t'.resolve log = .ok (t'.destination log) :=
    FileTree.resolve_eq_ok_iff.2 ⟨h.nameable, h.reached, rfl⟩
  have file : t'.node? (t'.destination log) ≠ some .folder := by
    rw [FileTree.destination_congr h.current]
    show t'.node? (place t log 0) ≠ some .folder
    rw [h.file]
    nofun
  exact ⟨_, FileTree.change_eq_ok_iff.2 ⟨h.named, resolved, file, rfl⟩⟩

/-- Opens a log and writes to it. -/
def record (log : Path) (bytes : ByteArray) : FileWork Unit := do
  LogFile.open log
  FileWork.change (·.append log bytes)

theorem record_on {t₁ t₂ : FileTree} (opened : (LogFile.open log).on t = (.ok (), t₁))
    (added : t₁.append log bytes = .ok t₂) : (record log bytes).on t = (.ok (), t₂) := by
  rw [record, FileWork.on_bind_ok opened, FileWork.on_change, added]

/-- A log that was opened takes what is written to it. -/
theorem Sound.record (sound : Sound maxSize maxFiles log t) (bytes : ByteArray) :
    ∃ t₁, Prepared log t t₁ ∧
      ((∃ e, (record log bytes).on t = (.error e, t₁)) ∨
        ∃ t₂ t₃, Written log .empty t₁ t₂ ∧ (record log bytes).on t = (.ok (), t₃) ∧
          Written log bytes t₂ t₃) := by
  obtain ⟨t₁, prepared, ⟨e, failed⟩ | ⟨t₂, opened, touched⟩⟩ := sound.open
  · refine ⟨t₁, prepared, .inl ⟨e, ?_⟩⟩
    rw [LogFile.record, FileWork.on_bind_error failed]
  · have touched := written_of_append touched
    obtain ⟨t₃, added⟩ := touched.append bytes
    exact ⟨t₁, prepared, .inr ⟨t₂, t₃, touched, record_on opened added, written_of_append added⟩⟩

/-! ## A log through any number of openings -/

/-- The files around a log, and what has become of it. -/
structure Journal where
  files : FileTree
  /-- All that was written to the log. -/
  written : Bytes := []
  /-- How many rotations have been begun. -/
  rotations : Nat := 0
  /-- Whether the log could not be opened the last time. -/
  failed : Bool := false

/-- Opens the log of a journal and writes to it, if it could be opened. -/
def Journal.add (log : Path) (journal : Journal) (bytes : ByteArray) : Journal :=
  let rotations := journal.rotations + if begins log journal.files then 1 else 0
  match (record log bytes).on journal.files with
  | (.ok _, t) => ⟨t, journal.written ++ bytes.data.toList, rotations, false⟩
  | (.error _, t) => ⟨t, journal.written, rotations, true⟩

theorem Journal.add_of_recorded (journal : Journal)
    (recorded : (record log bytes).on journal.files = (.ok (), t)) :
    journal.add log bytes = ⟨t, journal.written ++ bytes.data.toList,
      journal.rotations + if begins log journal.files then 1 else 0, false⟩ := by
  rw [Journal.add, recorded]

/-- The journal of a log after entries, each with an opening of its own. -/
def Journal.through (log : Path) (journal : Journal) (entries : List ByteArray) : Journal :=
  entries.foldl (Journal.add log) journal

/-- What holds of the files of a log at all times. -/
structure Kept (log : Path) (journal : Journal) : Prop where
  sound : Sound maxSize maxFiles log journal.files
  suffix : oldestFirst (stored journal.files log) maxFiles <:+ journal.written
  whole : journal.rotations ≤ maxFiles →
    oldestFirst (stored journal.files log) maxFiles = journal.written
  /-- The files are filled one rotation after the other. -/
  unused : ∀ i ≤ maxFiles, journal.rotations < i → stored journal.files log i = []
  reached : journal.failed = false → journal.written = [] ∨ journal.files.Reaches log

/-- Before any file of a log is there. -/
theorem kept_start
    (absent : ∀ i ≤ maxFiles, ∀ content, t.node? (place t log i) ≠ some (.file content)) :
    Kept log { files := t } := by
  have nothing : ∀ i ≤ maxFiles, stored t log i = [] := fun i le => stored_eq_nil (absent i le)
  have total : oldestFirst (stored t log) maxFiles = [] := oldestFirst_eq_nil nothing
  refine ⟨⟨?_, ?_⟩, ?_, ?_, ?_, ?_⟩
  · intro i le content there
    exact absurd there (absent i le content)
  · intro i lt content there
    exact absurd there (absent (i + 1) lt content)
  · exact total ▸ List.suffix_refl _
  · exact fun _ => total
  · exact fun i le _ => nothing i le
  · exact fun _ => .inl rfl

/-- How far the numbered files are used after a rotation that may have been begun. -/
theorem Kept.unused_prepared {journal : Journal} (h : Kept log journal)
    (prepared : Prepared log journal.files t) :
    ∀ i ≤ maxFiles, (journal.rotations + if begins log journal.files then 1 else 0) < i →
      stored t log i = [] := by
  intro i le later
  cases begun : begins log journal.files with
  | false =>
    rw [begun] at later
    rw [prepared.still begun]
    exact h.unused i le later
  | true =>
    have later' : journal.rotations + 1 < i := by simpa [begun] using later
    rcases prepared.rotated.each i with none | same | ⟨k, rfl, next⟩
    · exact none
    · rw [same]
      exact h.unused i le (by omega)
    · rw [next]
      exact h.unused k (by omega) (by omega)

/-- Nothing is lost while a rotation that has been begun still has an unused number. -/
theorem Kept.whole_prepared {journal : Journal} (h : Kept log journal)
    (prepared : Prepared log journal.files t)
    (few : (journal.rotations + if begins log journal.files then 1 else 0) ≤ maxFiles) :
    oldestFirst (stored t log) maxFiles = journal.written := by
  rw [← h.whole (by omega)]
  cases begun : begins log journal.files with
  | false => rw [prepared.still begun]
  | true =>
    have few' : journal.rotations + 1 ≤ maxFiles := by simpa [begun] using few
    exact prepared.rotated.whole (h.unused maxFiles (Nat.le_refl _) (by omega))

theorem Kept.add {journal : Journal} (h : Kept log journal) (bytes : ByteArray) :
    Kept log (journal.add log bytes) := by
  obtain ⟨t₁, prepared, ⟨e, failed⟩ | ⟨t₂, t₃, touched, added, written⟩⟩ :=
    h.sound.record bytes
  · rw [Journal.add, failed]
    refine ⟨prepared.rotated.sound, prepared.rotated.suffix.trans h.suffix,
      h.whole_prepared prepared, h.unused_prepared prepared, nofun⟩
  · have order : oldestFirst (stored t₃ log) maxFiles =
        oldestFirst (stored t₁ log) maxFiles ++ bytes.data.toList := by
      apply oldestFirst_append
      · rw [written.stored_zero, touched.stored_zero]
        simp
      · intro j
        rw [written.stored_succ, touched.stored_succ]
    rw [Journal.add_of_recorded journal added]
    refine ⟨written.sound (touched.sound prepared.rotated.sound), ?_, ?_, ?_, ?_⟩
    · show oldestFirst (stored t₃ log) maxFiles <:+ journal.written ++ bytes.data.toList
      obtain ⟨lost, all⟩ := prepared.rotated.suffix.trans h.suffix
      exact ⟨lost, by rw [order, ← List.append_assoc, all]⟩
    · intro few
      show oldestFirst (stored t₃ log) maxFiles = journal.written ++ bytes.data.toList
      rw [order, h.whole_prepared prepared few]
    · intro i le later
      obtain ⟨i, rfl⟩ := Nat.exists_eq_succ_of_ne_zero (Nat.ne_of_gt (Nat.zero_lt_of_lt later))
      show stored t₃ log (i + 1) = []
      rw [written.stored_succ, touched.stored_succ]
      exact h.unused_prepared prepared (i + 1) le later
    · exact fun _ => .inr written.reached

theorem Kept.through {journal : Journal} (h : Kept log journal) (entries : List ByteArray) :
    Kept log (journal.through log entries) := by
  induction entries generalizing journal with
  | nil => exact h
  | cons bytes entries ih => exact ih (h.add bytes)

/-- The second entry of a new log finds it due, if the first one is long enough: then the log is
rotated, with the long entry in its first numbered file. -/
theorem through_long_entry {long : ByteArray} (full : maxSize ≤ long.size) :
    let log := Path.ofString "logs/vicode.log"
    let journal := ({ files := .empty } : Journal).through log [long, ⟨#[115]⟩]
    journal.failed = false ∧ journal.rotations = 1 ∧
      journal.written = long.data.toList ++ [115] ∧
      journal.files.read (slot log 1) = .ok long ∧ journal.files.read log = .ok ⟨#[115]⟩ := by
  intro log journal
  let folder : Place := [Utf8.encode "logs"]
  let name : Bytes := Utf8.encode "vicode.log"
  let t₁ : FileTree := ⟨[], [(folder, .folder), (folder ++ [name], .file long)]⟩
  let t₂ : FileTree := ⟨[], [(folder, .folder), (folder ++ [name ++ ending 1], .file long)]⟩
  let t₃ : FileTree := ⟨[], t₂.nodes ++ [(folder ++ [name], .file .empty)]⟩
  let t₄ : FileTree := ⟨[], t₂.nodes ++ [(folder ++ [name], .file ⟨#[115]⟩)]⟩
  have first : Journal.add log { files := .empty } long = ⟨t₁, long.data.toList, 0, false⟩ := by
    have added : Journal.add log { files := .empty } long =
        ⟨⟨[], [(folder, .folder), (folder ++ [name], .file (.empty ++ .empty ++ long))]⟩,
          long.data.toList, 0, false⟩ := rfl
    rwa [ByteArray.empty_append, ByteArray.empty_append] at added
  have made : (ensureFolder log).on t₁ = (.ok (), t₁) := rfl
  have ripe : due log maxSize t₁ = true := decide_eq_true full
  have begun : begins log t₁ = true := by
    rw [begins, made]
    exact ripe
  have turned : (rotate log maxSize maxFiles).on t₁ = (.ok (), t₂) := by
    have unnumbered : ∀ i, 0 < i → i ≤ 5 → t₁.exists (numbered log i) = false := by
      intro i pos le
      rcases (by omega : i = 1 ∨ i = 2 ∨ i = 3 ∨ i = 4 ∨ i = 5) with rfl | rfl | rfl | rfl | rfl
      all_goals rfl
    have renamed : t₁.rename log (slot log 1) = .ok t₂ := rfl
    rw [maxFiles, rotate_of_unnumbered ripe unnumbered, FileWork.on_change, renamed]
  have created : t₂.append log .empty = .ok t₃ := rfl
  have added : t₃.append log ⟨#[115]⟩ = .ok t₄ := rfl
  have second := Journal.add_of_recorded ⟨t₁, long.data.toList, 0, false⟩
    (record_on (open_on made turned created) added)
  rw [begun] at second
  have both : journal = ⟨t₄, long.data.toList ++ [115], 1, false⟩ := by
    show Journal.through log { files := .empty } [long, ⟨#[115]⟩] = _
    rw [Journal.through, List.foldl_cons, List.foldl_cons, List.foldl_nil, first, second]
    rfl
  rw [both]
  exact ⟨rfl, rfl, rfl, rfl, rfl⟩

/-- Whatever was written to a log is in its files until it is pushed out: for every path, every
tree in which none of the places that the log and its numbered files name has a file, and any
entries, each written after an opening of its own.

The files that are read, the oldest first, are an end of all that was written; they are all of
it as long as no more than five rotations have been begun, unless the last opening failed, which
may leave no way to the files; a numbered file is never smaller than a log that is rotated; and
a log that was opened takes every entry.  The places are those that the paths name whether the
folders on the way are there or not, for opening the log makes the folders. -/
theorem log_conserved (log : Path) (t : FileTree)
    (absent : ∀ i ≤ maxFiles, ∀ content,
      t.node? (t.destination (numbered log i)) ≠ some (.file content))
    (entries : List ByteArray) :
    let journal := ({ files := t } : Journal).through log entries
    oldestFirst (held journal.files log) maxFiles <:+ journal.written ∧
      (journal.failed = false → journal.rotations ≤ maxFiles →
        oldestFirst (held journal.files log) maxFiles = journal.written) ∧
      (∀ i, 0 < i → i ≤ maxFiles → ∀ content,
        journal.files.read (slot log i) = .ok content → maxSize ≤ content.size) ∧
      (∀ t', (LogFile.open log).on journal.files = (.ok (), t') →
        ∀ bytes, ∃ t'', t'.append log bytes = .ok t'') := by
  intro journal
  have kept : Kept log journal := (kept_start absent).through entries
  have suffix := kept.sound.oldestFirst_held_suffix.trans kept.suffix
  refine ⟨suffix, ?_, ?_, ?_⟩
  · intro opened few
    rcases kept.reached opened with nothing | reached
    · rw [nothing] at suffix ⊢
      exact List.suffix_nil.1 suffix
    · rw [kept.sound.oldestFirst_held reached, kept.whole few]
  · intro i pos le content read
    obtain ⟨i, rfl⟩ := Nat.exists_eq_succ_of_ne_zero (Nat.ne_of_gt pos)
    obtain ⟨-, -, there⟩ := stat_eq_ok_iff.1 (FileTree.read_eq_ok_iff.1 read)
    exact kept.sound.full i le content there
  · intro t' opened bytes
    obtain ⟨t₁, -, ⟨e, failed⟩ | ⟨t₂, opened', touched⟩⟩ := kept.sound.open
    · rw [failed] at opened
      cases opened
    · rw [opened'] at opened
      cases opened
      exact (written_of_append touched).append bytes

/-- Two entries of a log whose folder is made for it; the first one is so long that the log is
rotated before the second. -/
theorem log_conserved_rotated :
    let log := Path.ofString "logs/vicode.log"
    let long : ByteArray := ⟨Array.replicate maxSize 102⟩
    let journal := ({ files := .empty } : Journal).through log [long, ⟨#[115]⟩]
    (∀ i ≤ maxFiles, ∀ content, FileTree.empty.node?
      (FileTree.empty.destination (numbered log i)) ≠ some (.file content)) ∧
      journal.rotations = 1 ∧
      journal.files.read (slot log 1) = .ok long ∧
      journal.files.read log = .ok ⟨#[115]⟩ ∧
      oldestFirst (held journal.files log) maxFiles = long.data.toList ++ [115] := by
  intro log long journal
  have absent : ∀ i ≤ maxFiles, ∀ content, FileTree.empty.node?
      (FileTree.empty.destination (numbered log i)) ≠ some (.file content) :=
    fun i _ content => FileTree.node?_empty_ne_file _ content
  have full : maxSize ≤ long.size := Nat.le_of_eq Array.size_replicate.symm
  -- Only the size of the long entry counts from here on, so that nothing evaluates it.
  clear_value long
  obtain ⟨opened, turns, written, moved, latest⟩ := through_long_entry full
  obtain ⟨-, whole, -, -⟩ := log_conserved log .empty absent [long, ⟨#[115]⟩]
  have few : journal.rotations ≤ maxFiles := by
    rw [turns]
    decide
  exact ⟨absent, turns, moved, latest, (whole opened few).trans written⟩

end LanguageClient.LogFile
