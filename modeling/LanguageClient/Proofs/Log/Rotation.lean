import LanguageClient.Proofs.Log.Slots

/-!
# Rotation

A rotation drops the file with the last number and then moves the others on, the
greatest number first, so that each finds its new place free.  The way to the files can
lead through one of them; when that has been moved, nothing more can be done, and
nothing more is lost.
-/

set_option autoImplicit false

namespace LanguageClient.LogFile

open FileTree (Nameable contentAt stat_eq_ok_iff)

variable {log : Path} {t t' before : FileTree} {size count number i j : Nat}

/-! ## What the files hold -/

/-- What files hold one after the other, the greatest number first. -/
def oldestFirst (held : Nat → Bytes) : Nat → Bytes
  | 0 => held 0
  | number + 1 => held (number + 1) ++ oldestFirst held number

section Order

variable {c d : Nat → Bytes} {bytes : Bytes}

theorem oldestFirst_congr (h : ∀ j ≤ count, d j = c j) :
    oldestFirst d count = oldestFirst c count := by
  induction count with
  | zero => exact h 0 (Nat.le_refl 0)
  | succ count ih =>
    rw [oldestFirst, oldestFirst, h (count + 1) (Nat.le_refl _)]
    rw [ih fun j hj => h j (by omega)]

theorem oldestFirst_eq_nil (h : ∀ j ≤ count, c j = []) : oldestFirst c count = [] := by
  induction count with
  | zero => exact h 0 (Nat.le_refl 0)
  | succ count ih =>
    rw [oldestFirst, h (count + 1) (Nat.le_refl _), ih fun j hj => h j (by omega)]
    rfl

/-- What goes to a free number one higher stays where it was in the order. -/
theorem oldestFirst_moved (le : i + 1 ≤ count) (free : c (i + 1) = [])
    (target : d (i + 1) = c i) (source : d i = [])
    (others : ∀ j, j ≠ i → j ≠ i + 1 → d j = c j) :
    oldestFirst d count = oldestFirst c count := by
  induction count with
  | zero => omega
  | succ count ih =>
    by_cases last : i = count
    · subst last
      rw [oldestFirst, oldestFirst, target, free]
      cases i with
      | zero => rw [oldestFirst, oldestFirst, source, List.append_nil, List.nil_append]
      | succ i =>
        have below : oldestFirst d i = oldestFirst c i :=
          oldestFirst_congr fun j hj => others j (by omega) (by omega)
        rw [oldestFirst, oldestFirst, source, below]
        rfl
    · rw [oldestFirst, oldestFirst, others (count + 1) (by omega) (by omega), ih (by omega)]

theorem oldestFirst_append (first : d 0 = c 0 ++ bytes) (others : ∀ j, d (j + 1) = c (j + 1)) :
    oldestFirst d count = oldestFirst c count ++ bytes := by
  induction count with
  | zero => exact first
  | succ count ih => rw [oldestFirst, oldestFirst, others, ih, List.append_assoc]

theorem oldestFirst_dropped (last : d count = []) (others : ∀ j, j ≠ count → d j = c j) :
    oldestFirst d count <:+ oldestFirst c count := by
  cases count with
  | zero =>
    rw [oldestFirst, last]
    exact List.nil_suffix
  | succ count =>
    have below : oldestFirst d count = oldestFirst c count :=
      oldestFirst_congr fun j hj => others j (by omega)
    rw [oldestFirst, oldestFirst, last, below]
    exact List.suffix_append _ _

end Order

/-- The bytes in a file of a log, whether there is a way to it or not. -/
def stored (t : FileTree) (log : Path) (number : Nat) : Bytes :=
  (t.contentAt (place t log number)).data.toList

theorem stored_of_node? (current : t'.current = t.current)
    (node : t'.node? (place t log j) = t.node? (place t log i)) :
    stored t' log j = stored t log i := by
  rw [stored, stored, place_congr current, FileTree.contentAt_of_node? node]

theorem stored_eq_nil (h : ∀ content, t.node? (place t log i) ≠ some (.file content)) :
    stored t log i = [] := by
  unfold stored contentAt
  split
  case h_1 content there => exact absurd there (h content)
  case h_2 => rfl

theorem stored_of_none (current : t'.current = t.current)
    (gone : t'.node? (place t log i) = none) : stored t' log i = [] := by
  apply stored_eq_nil
  rw [place_congr current, gone]
  nofun

/-- The files of a log can be named, and those with a number have a least size. -/
structure Sound (size count : Nat) (log : Path) (t : FileTree) : Prop where
  nameable : ∀ i ≤ count, ∀ content,
    t.node? (place t log i) = some (.file content) → Nameable (numbered log i)
  full : ∀ i < count, ∀ content,
    t.node? (place t log (i + 1)) = some (.file content) → size ≤ content.size

/-- Files that were there before are as sound as they were. -/
theorem Sound.of_files (sound : Sound size count log t) (current : t'.current = t.current)
    (files : ∀ i content, t'.node? (place t log i) = some (.file content) →
      t.node? (place t log i) = some (.file content)) : Sound size count log t' := by
  constructor
  · intro i le content there
    rw [place_congr current] at there
    exact sound.nameable i le content (files i content there)
  · intro i lt content there
    rw [place_congr current] at there
    exact sound.full i lt content (files (i + 1) content there)

/-- A file that cannot be found holds nothing, if there is a way to it. -/
theorem Sound.stored_of_not_exists (sound : Sound size count log t) (le : i ≤ count)
    (missing : t.exists (numbered log i) = false) (reached : t.Reaches log) :
    stored t log i = [] := by
  apply stored_eq_nil
  intro content there
  have found : t.stat (numbered log i) = .ok (.file content) :=
    stat_eq_ok_iff.2
      ⟨sound.nameable i le content there, (reaches_numbered_iff t log i).2 reached, there⟩
  rw [FileTree.exists_iff.2 ⟨_, found⟩] at missing
  cases missing

/-! ## One file moves on -/

/-- A file of a log has taken the next number. -/
structure Moved (log : Path) (number : Nat) (t t' : FileTree) : Prop where
  current : t'.current = t.current
  target : t'.node? (place t log (number + 1)) = t.node? (place t log number)
  source : t'.node? (place t log number) = none
  others : ∀ j, j ≠ number → j ≠ number + 1 →
    t'.node? (place t log j) = t.node? (place t log j)
  nameable : Nameable (numbered log (number + 1))
  reached : t.Reaches log

theorem moved_of_rename
    (h : t.rename (numbered log number) (numbered log (number + 1)) = .ok t') :
    Moved log number t t' := by
  have distinct : number ≠ number + 1 := by omega
  obtain ⟨node, found, resolved, same | ⟨apart, -, rfl⟩⟩ := FileTree.rename_eq_ok h
  · exact absurd same.1 (place_ne t log distinct)
  · obtain ⟨-, reached, there⟩ := stat_eq_ok_iff.1 found
    have away : ∀ j, j ≠ number → ¬ place t log number <+: place t log j := by
      intro j other
      cases number with
      | zero => exact not_prefix_place_zero t log apart other
      | succ number => exact not_prefix_place t log other
    have root : place t log number ≠ [] := by
      intro root
      apply apart
      show place t log number <+: place t log (number + 1)
      rw [root]
      exact List.nil_prefix
    refine ⟨rfl, ?_, ?_, ?_, (FileTree.resolve_eq_ok_iff.1 resolved).1,
      (reaches_numbered_iff t log number).1 reached⟩
    · exact FileTree.node?_move_target (place_ne t log distinct) root
        (place_succ_ne_nil t log number)
    · exact FileTree.node?_move_source root (not_prefix_place t log distinct)
    · intro j other next
      exact FileTree.node?_move_of_not (away j other) (not_prefix_place t log next)

theorem Moved.stored_target (moved : Moved log number t t') :
    stored t' log (number + 1) = stored t log number :=
  stored_of_node? moved.current moved.target

theorem Moved.stored_source (moved : Moved log number t t') : stored t' log number = [] :=
  stored_of_none moved.current moved.source

theorem Moved.stored_others (moved : Moved log number t t') (other : j ≠ number)
    (next : j ≠ number + 1) : stored t' log j = stored t log j :=
  stored_of_node? moved.current (moved.others j other next)

/-- The file that moves on has reached the size that numbered files have. -/
theorem Sound.moved (sound : Sound size count log t) (moved : Moved log number t t')
    (full : ∀ content, t.node? (place t log number) = some (.file content) →
      size ≤ content.size) : Sound size count log t' := by
  constructor
  · intro i le content there
    rw [place_congr moved.current] at there
    by_cases source : i = number
    · rw [source, moved.source] at there
      cases there
    by_cases target : i = number + 1
    · exact target ▸ moved.nameable
    · rw [moved.others i source target] at there
      exact sound.nameable i le content there
  · intro i lt content there
    rw [place_congr moved.current] at there
    by_cases source : i + 1 = number
    · rw [source, moved.source] at there
      cases there
    by_cases target : i + 1 = number + 1
    · rw [target, moved.target] at there
      exact full content there
    · rw [moved.others (i + 1) source target] at there
      exact sound.full i lt content there

/-! ## The files move on one after the other -/

/-- The files from a number on have been moved on, as far as that was possible. -/
structure Carried (size count : Nat) (log : Path) (before : FileTree) (number : Nat)
    (t : FileTree) : Prop where
  current : t.current = before.current
  sound : Sound size count log t
  kept : oldestFirst (stored t log) count = oldestFirst (stored before log) count
  below : ∀ j < number, t.node? (place before log j) = before.node? (place before log j)
  each : ∀ j, stored t log j = [] ∨ stored t log j = stored before log j ∨
    ∃ k, j = k + 1 ∧ stored t log j = stored before log k

theorem Sound.carried (sound : Sound size count log t) (number : Nat) :
    Carried size count log t number t :=
  ⟨rfl, sound, rfl, fun _ _ => rfl, fun _ => .inr (.inl rfl)⟩

theorem Carried.mono (h : Carried size count log before number t) (le : i ≤ number) :
    Carried size count log before i t :=
  { h with below := fun j lt => h.below j (by omega) }

/-- The next file moves to the place that was freed before. -/
theorem Carried.moved (h : Carried size count log before (number + 1) t)
    (le : number + 1 ≤ count) (free : stored t log (number + 1) = [])
    (moved : Moved log number t t')
    (full : ∀ content, t.node? (place t log number) = some (.file content) →
      size ≤ content.size) : Carried size count log before number t' := by
  have places : ∀ j, place t log j = place before log j := place_congr h.current log
  refine ⟨moved.current.trans h.current, h.sound.moved moved full, ?_, ?_, ?_⟩
  · rw [← h.kept]
    exact oldestFirst_moved le free moved.stored_target moved.stored_source
      fun j => moved.stored_others
  · intro j lt
    have same := moved.others j (by omega) (by omega)
    rw [places j] at same
    rw [same, h.below j (by omega)]
  · intro j
    by_cases source : j = number
    · exact .inl (source ▸ moved.stored_source)
    by_cases target : j = number + 1
    · have origin : stored t log number = stored before log number :=
        stored_of_node? h.current (h.below number (Nat.lt_succ_self number))
      refine .inr (.inr ⟨number, target, ?_⟩)
      rw [target, moved.stored_target, origin]
    · rw [moved.stored_others source target]
      exact h.each j

/-- A numbered file is free to be taken, as long as there is a way to it. -/
def Free (log : Path) (number : Nat) (t : FileTree) : Prop :=
  t.Reaches log → stored t log number = []

theorem shift_on (log : Path) (number : Nat) (t : FileTree) :
    (shift log number).on t =
      if t.exists (slot log number) then
        match t.rename (slot log number) (slot log (number + 1)) with
        | .ok t' => (.ok (), t')
        | .error e => (.error e, t)
      else (.ok (), t) := by
  rw [shift, FileWork.on_get_bind]
  split
  · exact FileWork.on_change _
  · rfl

theorem Carried.shift (h : Carried size count log before (number + 2) t)
    (free : Free log (number + 2) t) (le : number + 2 ≤ count) :
    Carried size count log before (number + 1) ((shift log (number + 1)).on t).2 ∧
      (((shift log (number + 1)).on t).1 = .ok () →
        Free log (number + 1) ((shift log (number + 1)).on t).2) := by
  have earlier : Carried size count log before (number + 1) t := h.mono (Nat.le_succ _)
  rw [shift_on]
  split
  · split
    case h_1 renamed =>
      have moved : Moved log (number + 1) t _ := moved_of_rename renamed
      refine ⟨h.moved le (free moved.reached) moved (h.sound.full number (by omega)), ?_⟩
      intro _ _
      exact moved.stored_source
    case h_2 => exact ⟨earlier, nofun⟩
  case isFalse missing =>
    have missing' : t.exists (numbered log (number + 1)) = false := Bool.eq_false_iff.2 missing
    exact ⟨earlier, fun _ => h.sound.stored_of_not_exists (by omega) missing'⟩

theorem Carried.shiftBelow (h : Carried size count log before (number + 1) t)
    (free : Free log (number + 1) t) (le : number + 1 ≤ count) :
    Carried size count log before 1 ((shiftBelow log (number + 1)).on t).2 ∧
      (((shiftBelow log (number + 1)).on t).1 = .ok () →
        Free log 1 ((shiftBelow log (number + 1)).on t).2) := by
  -- The place above the files that are still to move is free, as long as it can be reached.
  induction number generalizing t with
  | zero => exact ⟨h, fun _ => free⟩
  | succ number ih =>
    have step := h.shift free le
    rw [LogFile.shiftBelow]
    rcases shifted : (LogFile.shift log (number + 1)).on t with ⟨e | ok, after⟩
    · rw [shifted] at step
      rw [FileWork.on_bind_error shifted]
      exact ⟨step.1.mono (by omega), nofun⟩
    · rw [shifted] at step
      rw [FileWork.on_bind_ok shifted]
      exact ih step.1 (step.2 rfl) (by omega)

/-! ## A rotation as a whole -/

/-- A log has reached a size. -/
def due (log : Path) (size : Nat) (t : FileTree) : Bool :=
  match t.stat log with
  | .ok node => size ≤ node.size
  | .error _ => false

/-- What a rotation does to the files of a log: at most the last is lost. -/
structure Rotated (size count : Nat) (log : Path) (t t' : FileTree) : Prop where
  current : t'.current = t.current
  sound : Sound size count log t'
  suffix : oldestFirst (stored t' log) count <:+ oldestFirst (stored t log) count
  whole : stored t log count = [] →
    oldestFirst (stored t' log) count = oldestFirst (stored t log) count
  each : ∀ j, stored t' log j = [] ∨ stored t' log j = stored t log j ∨
    ∃ k, j = k + 1 ∧ stored t' log j = stored t log k

theorem Sound.rotated (sound : Sound size count log t) : Rotated size count log t t :=
  ⟨rfl, sound, List.suffix_refl _, fun _ => rfl, fun _ => .inr (.inl rfl)⟩

/-- The last file of a log is not there any more, or nothing has happened. -/
structure Dropped (log : Path) (count : Nat) (t t' : FileTree) : Prop where
  current : t'.current = t.current
  last : t'.node? (place t log count) = t.node? (place t log count) ∨
    t'.node? (place t log count) = none
  others : ∀ j, j ≠ count → t'.node? (place t log j) = t.node? (place t log j)

theorem Dropped.refl (t : FileTree) : Dropped log count t t := ⟨rfl, .inl rfl, fun _ _ => rfl⟩

theorem Sound.drop (sound : Sound size (count + 1) log t) :
    Dropped log (count + 1) t ((drop log (count + 1)).on t).2 ∧
      (((drop log (count + 1)).on t).1 = .ok () →
        Free log (count + 1) ((drop log (count + 1)).on t).2) := by
  rw [LogFile.drop, FileWork.on_get_bind]
  split
  · rw [FileWork.on_change]
    split
    case h_1 removed =>
      obtain ⟨-, rfl⟩ := FileTree.removeFile_eq_ok removed
      have gone : (t.erase (place t log (count + 1))).node? (place t log (count + 1)) = none :=
        FileTree.node?_erase_self (place_succ_ne_nil t log count)
      refine ⟨⟨rfl, .inr gone, fun j other => ?_⟩, fun _ _ => ?_⟩
      · exact FileTree.node?_erase_of_ne (place_ne t log other)
      · exact stored_of_none (t := t) rfl gone
    case h_2 => exact ⟨Dropped.refl t, nofun⟩
  case isFalse missing =>
    have missing' : t.exists (numbered log (count + 1)) = false := Bool.eq_false_iff.2 missing
    exact ⟨Dropped.refl t, fun _ => sound.stored_of_not_exists (Nat.le_refl _) missing'⟩

/-- What is there after the last file was dropped was there before. -/
theorem Dropped.node? (h : Dropped log count t t') {node : Node}
    (there : t'.node? (place t log j) = some node) : t.node? (place t log j) = some node := by
  by_cases last : j = count
  · subst last
    rcases h.last with same | gone
    · rw [← same, there]
    · rw [gone] at there
      cases there
  · rw [← h.others j last, there]

theorem Dropped.sound (h : Dropped log count t t') (sound : Sound size count log t) :
    Sound size count log t' :=
  sound.of_files h.current fun _ _ => h.node?

theorem Dropped.stored_others (h : Dropped log count t t') (other : j ≠ count) :
    stored t' log j = stored t log j :=
  stored_of_node? h.current (h.others j other)

theorem Dropped.stored_last (h : Dropped log count t t') :
    stored t' log count = stored t log count ∨ stored t' log count = [] := by
  rcases h.last with same | gone
  · exact .inl (stored_of_node? h.current same)
  · exact .inr (stored_of_none h.current gone)

/-- Dropping the last file and moving the others on, as far as that is possible. -/
theorem Dropped.rotated {t'' : FileTree} (h : Dropped log count t t')
    (carried : Carried size count log t' i t'') : Rotated size count log t t'' := by
  refine ⟨carried.current.trans h.current, carried.sound, ?_, ?_, ?_⟩
  · rw [carried.kept]
    rcases h.stored_last with same | gone
    · have order : oldestFirst (stored t' log) count = oldestFirst (stored t log) count := by
        apply oldestFirst_congr
        intro j _
        by_cases last : j = count
        · exact last ▸ same
        · exact h.stored_others last
      exact order ▸ List.suffix_refl _
    · exact oldestFirst_dropped gone fun j => h.stored_others
  · intro empty
    rw [carried.kept]
    apply oldestFirst_congr
    intro j _
    by_cases last : j = count
    · rw [last, empty]
      rcases h.stored_last with same | gone
      · rw [same, empty]
      · exact gone
    · exact h.stored_others last
  · intro j
    have former : ∀ k, stored t' log k = [] ∨ stored t' log k = stored t log k := by
      intro k
      by_cases last : k = count
      · subst last
        exact h.stored_last.symm
      · exact .inr (h.stored_others last)
    rcases carried.each j with none | same | ⟨k, rfl, next⟩
    · exact .inl none
    · rw [same]
      exact (former j).imp_right .inl
    · rw [next]
      exact (former k).imp_right fun same => .inr ⟨k, rfl, same⟩

theorem rotate_of_not_due (h : due log size t = false) :
    ((rotate log size count).on t).2 = t := by
  rw [rotate, FileWork.on_get_bind]
  split
  · rfl
  · rfl
  case h_3 node found =>
    have small : node.size < size := by simpa [due, found] using h
    rw [if_pos small]
    rfl

theorem rotate_of_due (h : due log size t = true) :
    (rotate log size (count + 1)).on t =
      (do
        drop log (count + 1)
        shiftBelow log (count + 1)
        FileWork.change (·.rename log (slot log 1)) : FileWork Unit).on t := by
  rw [rotate, FileWork.on_get_bind]
  split
  case h_1 missing => simp [due, missing] at h
  case h_2 failed => simp [due, failed] at h
  case h_3 node found =>
    have large : ¬ node.size < size := by simpa [due, found] using h
    rw [if_neg large, if_neg (Nat.succ_ne_zero count)]

/-- What has reached more than the size of a folder is a file. -/
theorem exists_file_of_due (h : due log size t = true) (big : Node.folderSize < size) :
    ∃ content, t.node? (place t log 0) = some (.file content) ∧ size ≤ content.size := by
  cases found : t.stat log with
  | error e => simp [due, found] at h
  | ok node =>
    have large : size ≤ node.size := by simpa [due, found] using h
    obtain ⟨-, -, there⟩ := stat_eq_ok_iff.1 found
    cases node with
    | folder => exact absurd large (Nat.not_le.2 big)
    | file content => exact ⟨content, there, large⟩

/-- A rotation, also one that fails on the way, loses at most the last file. -/
theorem Sound.rotate (sound : Sound size (count + 1) log t) (big : Node.folderSize < size) :
    Rotated size (count + 1) log t ((rotate log size (count + 1)).on t).2 := by
  cases reached : due log size t with
  | false =>
    rw [rotate_of_not_due reached]
    exact sound.rotated
  | true =>
    obtain ⟨content, log_file, large⟩ := exists_file_of_due reached big
    obtain ⟨dropped, free⟩ := sound.drop
    rw [rotate_of_due reached]
    rcases first : (LogFile.drop log (count + 1)).on t with ⟨e | ok, t₁⟩
    · rw [first] at dropped
      rw [FileWork.on_bind_error first]
      exact dropped.rotated ((dropped.sound sound).carried 0)
    rw [first] at dropped free
    rw [FileWork.on_bind_ok first]
    obtain ⟨carried, free⟩ := ((dropped.sound sound).carried (count + 1)).shiftBelow
      (free rfl) (Nat.le_refl _)
    rcases second : (LogFile.shiftBelow log (count + 1)).on t₁ with ⟨e | ok, t₂⟩
    · rw [second] at carried
      rw [FileWork.on_bind_error second]
      exact dropped.rotated carried
    rw [second] at carried free
    rw [FileWork.on_bind_ok second, FileWork.on_change]
    split
    case h_1 renamed =>
      have moved : Moved log 0 t₂ _ := moved_of_rename renamed
      apply dropped.rotated
      apply carried.moved (by omega) (free rfl moved.reached) moved
      intro other there
      have origin : t₂.node? (place t₂ log 0) = some (.file content) := by
        rw [place_congr carried.current, carried.below 0 (by omega),
          place_congr dropped.current, dropped.others 0 (by omega), log_file]
      rw [origin] at there
      cases there
      exact large
    case h_2 => exact dropped.rotated carried

end LanguageClient.LogFile
