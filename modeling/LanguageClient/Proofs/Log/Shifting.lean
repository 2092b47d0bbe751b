import LanguageClient.Proofs.Files.Moves
import LanguageClient.Proofs.Log.Rotation

/-!
# Every file takes the next number

A rotation of files, with any of the numbers missing, moves each to the next number and loses
the last.  No file is ever renamed to one that is there, so that the rotation is the same with
a renaming that refuses this.  A number may be so long that it makes a name too long: then the
rotation fails before it has changed anything, for no greater number can be there either.
-/

set_option autoImplicit false

namespace LanguageClient.LogFile

open FileTree (Nameable WellFormed stat_eq_ok_iff exists_iff check_eq_ok_iff)

variable {log : Path} {t t₁ t₂ : FileTree} {size count low high i j m : Nat}

/-! ## Numbers that make a name too long -/

theorem nameable_slot_of_le (named : Nameable (slot log j)) (le : i ≤ j) :
    Nameable (slot log i) := by
  obtain ⟨checked, short⟩ := named
  obtain ⟨free, -, less⟩ := check_eq_ok_iff.mp checked
  have longer := length_ending_le le
  have bytes : ∀ number, (slot log number).bytes = log.bytes ++ ending number := fun _ => rfl
  rw [bytes, List.length_append] at less
  rw [bytes, List.mem_append, not_or] at free
  rw [lastPart_slot, List.length_append] at short
  refine ⟨check_eq_ok_iff.mpr ⟨?_, ?_, ?_⟩, ?_⟩
  · rw [bytes, List.mem_append, not_or]
    exact ⟨free.1, zero_not_mem_ending i⟩
  · rw [bytes]
    exact List.append_ne_nil_of_right_ne_nil _ (ending_ne_nil i)
  · rw [bytes, List.length_append]
    omega
  · rw [lastPart_slot, List.length_append]
    omega

/-- The path of a log that can be named has no zero in it. -/
theorem zero_not_mem (named : Nameable (numbered log i)) : 0 ∉ log.bytes := by
  obtain ⟨free, -, -⟩ := check_eq_ok_iff.mp named.check
  cases i with
  | zero => exact free
  | succ i =>
    intro zero
    exact free (List.mem_append_left _ zero)

/-- The only thing wrong with the path of a numbered file can be its length. -/
theorem resolve_slot_of_not_nameable (reached : t.Reaches log) (free : 0 ∉ log.bytes)
    (unnamed : ¬ Nameable (slot log j)) : t.resolve (slot log j) = .error .nameTooLong := by
  have bytes : (slot log j).bytes = log.bytes ++ ending j := rfl
  have zero : 0 ∉ (slot log j).bytes := by
    rw [bytes, List.mem_append, not_or]
    exact ⟨free, zero_not_mem_ending j⟩
  have filled : (slot log j).bytes ≠ [] := by
    rw [bytes]
    exact List.append_ne_nil_of_right_ne_nil _ (ending_ne_nil j)
  by_cases long : FileTree.pathLimit ≤ (slot log j).bytes.length
  · have refused : FileTree.check (slot log j) = .error .nameTooLong := by
      rw [FileTree.check, if_neg zero, if_neg filled, if_pos long]
    rw [FileTree.resolve, refused]
    rfl
  · have checked : FileTree.check (slot log j) = .ok () := by
      rw [FileTree.check, if_neg zero, if_neg filled, if_neg long]
    have wide : FileTree.maxName < (slot log j).lastPart.length := by
      by_contra short
      exact unnamed ⟨checked, Nat.not_lt.mp short⟩
    obtain ⟨walked, folder⟩ := (reaches_slot_iff t log j).mpr reached
    have entered : t.enter (t.room (slot log j)) (slot log j).lastPart = .error .nameTooLong := by
      have other : ∀ part : Bytes, part.length ≤ 2 → (slot log j).lastPart ≠ part := by
        rintro _ short rfl
        have limit : FileTree.maxName = 255 := rfl
        omega
      rw [FileTree.enter, folder]
      simp only
      rw [if_neg (not_or.mpr ⟨other [] (by simp), other [Path.dot] (by simp)⟩),
        if_neg (other [Path.dot, Path.dot] (by simp)), if_pos wide]
    rw [FileTree.resolve, checked, ← (slot log j).parts_append_lastPart]
    show t.walk (slot log j) _ = _
    rw [FileTree.walk_append, walked]
    exact entered

/-! ## Rotating with another way of renaming -/

/-- Renaming that refuses to take the place of anything. -/
def renameNew (t : FileTree) (p q : Path) : Except IoError FileTree :=
  if t.exists q then .error .alreadyExists else t.rename p q

section With

variable (rename : FileTree → Path → Path → Except IoError FileTree)

/-- Moves the file with a number on, with a way of renaming. -/
def shiftWith (log : Path) (number : Nat) : FileWork Unit := do
  if (← get).exists (slot log number) then
    FileWork.change (rename · (slot log number) (slot log (number + 1)))

/-- Moves the files with the numbers below `count` on, with a way of renaming. -/
def shiftBelowWith (log : Path) : Nat → FileWork Unit
  | 0 | 1 => pure ()
  | count + 2 => do
    shiftWith rename log (count + 1)
    shiftBelowWith log (count + 1)

/-- Rotates a log that has reached a size, with a way of renaming. -/
def rotateWith (log : Path) (size count : Nat) : FileWork Unit := do
  match (← get).stat log with
  | .error .notFound => pure ()
  | .error e => throw e
  | .ok node =>
    if node.size < size then pure ()
    else if count = 0 then FileWork.change (·.removeFile log)
    else do
      drop log count
      shiftBelowWith rename log count
      FileWork.change (rename · log (slot log 1))

end With

theorem shiftBelowWith_rename (log : Path) (count : Nat) :
    shiftBelowWith FileTree.rename log count = shiftBelow log count := by
  induction count with
  | zero => rfl
  | succ count ih =>
    cases count with
    | zero => rfl
    | succ count =>
      rw [shiftBelowWith, shiftBelow, ih]
      rfl

/-- Rotating is rotating with the usual renaming. -/
theorem rotateWith_rename (log : Path) (size count : Nat) :
    rotateWith FileTree.rename log size count = rotate log size count := by
  rw [rotateWith, shiftBelowWith_rename]
  rfl

/-- Whether a way of renaming does what is usual where there is nothing. -/
def Careful (rename : FileTree → Path → Path → Except IoError FileTree) : Prop :=
  ∀ (t : FileTree) (p q : Path), t.exists q = false → rename t p q = t.rename p q

theorem careful_rename : Careful FileTree.rename := fun _ _ _ _ => rfl

theorem careful_renameNew : Careful renameNew := by
  intro t p q free
  rw [renameNew, if_neg (by simp [free])]

/-! ## Files that have moved on -/

/-- The files from the number `low` on have taken the next number, up to the number `high`,
whose own file is lost.  Nothing else has changed. -/
structure Shifted (log : Path) (low high : Nat) (t t' : FileTree) : Prop where
  current : t'.current = t.current
  whole : t'.WellFormed
  before : t.Reaches log
  after : t'.Reaches log
  free : t'.exists (numbered log low) = false
  next : ∀ i, low ≤ i → i < high → ∀ node,
    t'.stat (numbered log (i + 1)) = .ok node ↔ t.stat (numbered log i) = .ok node
  others : ∀ other, (∀ i, low ≤ i → i ≤ high → other ≠ place t log i) →
    t'.node? other = t.node? other

theorem exists_eq_false_iff {p : Path} :
    t.exists p = false ↔ ∀ node, t.stat p ≠ .ok node := by
  rw [← Bool.not_eq_true, exists_iff, not_exists]

/-- Files with other numbers stay as they are. -/
theorem Shifted.stat_other (h : Shifted log low high t t₁) (other : i < low ∨ high < i)
    (node : Node) :
    t₁.stat (numbered log i) = .ok node ↔ t.stat (numbered log i) = .ok node := by
  have same : t₁.node? (place t log i) = t.node? (place t log i) :=
    h.others _ fun j least most => place_ne t log (by omega)
  have here : t₁.destination (numbered log i) = place t log i := place_congr h.current log i
  rw [stat_eq_ok_iff, stat_eq_ok_iff, reaches_numbered_iff, reaches_numbered_iff, here, same]
  simp [h.before, h.after, place]

/-- One more file moves on, to the number that has become free. -/
theorem Shifted.trans (upper : Shifted log (m + 1) high t t₁)
    (lower : Shifted log m (m + 1) t₁ t₂) (lt : m < high) : Shifted log m high t t₂ := by
  refine ⟨lower.current.trans upper.current, lower.whole, upper.before, lower.after, lower.free,
    fun i least most node => ?_, fun other away => ?_⟩
  · by_cases last : i = m
    · subst last
      rw [lower.next i (Nat.le_refl _) (by omega) node, upper.stat_other (.inl (by omega))]
    · rw [lower.stat_other (.inr (by omega)), upper.next i (by omega) most]
  · rw [lower.others other fun i least most => ?_, upper.others other fun i least most => ?_]
    · exact away i (by omega) most
    · rw [place_congr upper.current]
      exact away i least (by omega)

/-- Where there is no file to move and none at the next number, all is as if one had moved. -/
theorem shifted_of_missing (whole : t.WellFormed) (reached : t.Reaches log)
    (missing : t.exists (numbered log m) = false)
    (free : t.exists (numbered log (m + 1)) = false) : Shifted log m (m + 1) t t := by
  refine ⟨rfl, whole, reached, reached, missing, fun i least most node => ?_, fun _ _ => rfl⟩
  obtain rfl : i = m := by omega
  exact iff_of_false (exists_eq_false_iff.mp free node) (exists_eq_false_iff.mp missing node)

/-- A file that is removed has no number any more. -/
theorem shifted_of_removed (whole : t.WellFormed) {content : ByteArray}
    (file : t.stat (numbered log m) = .ok (.file content)) :
    Shifted log m m t (t.erase (place t log m)) := by
  obtain ⟨-, reached, there⟩ := stat_eq_ok_iff.mp file
  have notFolder : t.node? (place t log m) ≠ some .folder := by
    rw [place, there]
    nofun
  have reached : t.Reaches log := (reaches_numbered_iff t log m).mp reached
  have folders := FileTree.hasFoldersOf_erase notFolder
  refine ⟨rfl, whole.erase notFolder, reached, reached.of_hasFoldersOf folders, ?_,
    fun i least most => absurd (Nat.lt_of_le_of_lt least most) (Nat.lt_irrefl _),
    fun other away => FileTree.node?_erase_of_ne (away m (Nat.le_refl _) (Nat.le_refl _))⟩
  rw [exists_eq_false_iff]
  intro node found
  obtain ⟨-, -, left⟩ := stat_eq_ok_iff.mp found
  rw [show (t.erase (place t log m)).destination (numbered log m) = place t log m from rfl,
    FileTree.node?_erase_self (FileTree.ne_nil_of_node? notFolder)] at left
  cases left

theorem room_numbered (t : FileTree) (log : Path) (number : Nat) :
    t.room (numbered log number) = t.room log := by
  cases number with
  | zero => rfl
  | succ number => exact room_slot t log (number + 1)

/-- A numbered path leads to a name in the folder of the log. -/
theorem destination_succ (t : FileTree) (log : Path) (number : Nat) :
    t.destination (numbered log (number + 1)) =
      t.room (numbered log (number + 1)) ++ [(numbered log (number + 1)).lastPart] := by
  rw [room_numbered]
  exact (destination_slot t log (number + 1)).trans (by rw [numbered, lastPart_slot])

/-- Where nothing is found there is nothing, if it can be named and reached. -/
theorem node?_of_free (reached : t.Reaches log) (named : Nameable (numbered log m))
    (free : t.exists (numbered log m) = false) : t.node? (place t log m) = none := by
  have resolved : t.resolve (numbered log m) = .ok (place t log m) :=
    FileTree.resolve_eq_ok_iff.mpr ⟨named, (reaches_numbered_iff t log m).mpr reached, rfl⟩
  cases occupied : t.node? (place t log m) with
  | none => rfl
  | some node =>
    rw [FileTree.exists_of_resolve resolved occupied] at free
    cases free

/-- A file that moves to the place of the next number, where there is nothing, takes that
number. -/
theorem shifted_of_moved (whole : t.WellFormed) {content : ByteArray}
    (file : t.stat (numbered log m) = .ok (.file content))
    (named : Nameable (numbered log (m + 1))) (empty : t.node? (place t log (m + 1)) = none) :
    Shifted log m (m + 1) t (t.move (place t log m) (place t log (m + 1))) := by
  obtain ⟨nameable, found, there⟩ := stat_eq_ok_iff.mp file
  have reached : t.Reaches log := (reaches_numbered_iff t log m).mp found
  have reached' := reached.of_hasFoldersOf (whole.hasFoldersOf_move there empty)
  have distinct : place t log m ≠ place t log (m + 1) := place_ne t log (by omega)
  have back : ¬ place t log (m + 1) <+: place t log m := not_prefix_place t log (by omega)
  have root : place t log m ≠ [] := FileTree.ne_nil_of_node? (by rw [place, there]; nofun)
  have above : t.node? (place t log (m + 1)).dropLast = some .folder := by
    rw [place_succ, List.dropLast_concat]
    exact reached.2
  have gone := FileTree.node?_move_source (t := t) root back
  have arrived := FileTree.node?_move_target (t := t) distinct root (place_succ_ne_nil t log m)
  refine ⟨rfl, whole.move there empty above back, reached, reached', ?_,
    fun i least most node => ?_, fun other away => ?_⟩
  · rw [exists_eq_false_iff]
    intro node left
    obtain ⟨-, -, left⟩ := stat_eq_ok_iff.mp left
    exact absurd (gone.symm.trans left) nofun
  · obtain rfl : i = m := by omega
    rw [stat_eq_ok_iff, stat_eq_ok_iff, reaches_numbered_iff, reaches_numbered_iff]
    refine and_congr (iff_of_true named nameable) (and_congr (iff_of_true reached' reached) ?_)
    exact arrived ▸ Iff.rfl
  · exact whole.node?_move there (away m (Nat.le_refl _) (by omega))
      (away (m + 1) (by omega) (Nat.le_refl _))

/-- A file is renamed to the next number, if that is free and can be named. -/
theorem shifted_of_renamed (whole : t.WellFormed) {content : ByteArray}
    (file : t.stat (numbered log m) = .ok (.file content))
    (free : t.exists (numbered log (m + 1)) = false)
    (named : Nameable (numbered log (m + 1))) :
    ∃ t', t.rename (numbered log m) (numbered log (m + 1)) = .ok t' ∧
      Shifted log m (m + 1) t t' := by
  have reached : t.Reaches log := (reaches_numbered_iff t log m).mp (stat_eq_ok_iff.mp file).2.1
  have empty := node?_of_free reached named free
  have source : place t log m = t.room log ++ [(numbered log m).lastPart] :=
    room_numbered t log m ▸ whole.destination_of_file file
  have target : place t log (m + 1) = t.room log ++ [(numbered log (m + 1)).lastPart] :=
    room_numbered t log (m + 1) ▸ destination_succ t log m
  have apart : ¬ place t log m <+: place t log (m + 1) := by
    have distinct : place t log m ≠ place t log (m + 1) := place_ne t log (by omega)
    intro within
    rw [source, target, prefix_concat_iff] at within
    exact distinct (by rw [source, target, within])
  have resolved : t.resolve (numbered log (m + 1)) = .ok (place t log (m + 1)) :=
    FileTree.resolve_eq_ok_iff.mpr ⟨named, (reaches_slot_iff t log (m + 1)).mpr reached, rfl⟩
  have renamed := FileTree.rename_of_free file
    (FileTree.endsWithName_of_destination (whole.destination_of_file file))
    (FileTree.endsWithName_of_destination (destination_succ t log m)) resolved empty apart
  exact ⟨_, renamed, shifted_of_moved whole file named empty⟩

/-! ## One file after the other -/

/-- The next file moves on, if it is there. -/
theorem Shifted.step (h : Shifted log (m + 1) high t t₁) (lt : m < high)
    (file : t.stat (numbered log m) ≠ .ok .folder)
    (named : t.exists (numbered log m) = true → Nameable (numbered log (m + 1))) :
    (t₁.exists (numbered log m) = false ∧ Shifted log m high t t₁) ∨
      ∃ t₂, t₁.exists (numbered log m) = true ∧
        t₁.rename (numbered log m) (numbered log (m + 1)) = .ok t₂ ∧ Shifted log m high t t₂ := by
  have same := h.stat_other (.inl (Nat.lt_succ_self m))
  cases there : t₁.exists (numbered log m) with
  | false => exact .inl ⟨rfl, h.trans (shifted_of_missing h.whole h.after there h.free) lt⟩
  | true =>
    obtain ⟨node, found⟩ := exists_iff.mp there
    have before := (same node).mp found
    cases node with
    | folder => exact absurd before file
    | file content =>
      obtain ⟨t₂, renamed, moved⟩ := shifted_of_renamed h.whole found h.free
        (named (exists_iff.mpr ⟨_, before⟩))
      exact .inr ⟨t₂, rfl, renamed, h.trans moved lt⟩

section Runs

variable {rename : FileTree → Path → Path → Except IoError FileTree}

theorem shiftWith_of_missing (missing : t.exists (slot log m) = false) :
    (shiftWith rename log m).on t = (.ok (), t) := by
  rw [shiftWith, FileWork.on_get_bind, if_neg (by simp [missing])]
  rfl

theorem shiftWith_of_there (there : t.exists (slot log m) = true) :
    (shiftWith rename log m).on t =
      match rename t (slot log m) (slot log (m + 1)) with
      | .ok t' => (.ok (), t')
      | .error e => (.error e, t) := by
  rw [shiftWith, FileWork.on_get_bind, if_pos there]
  exact FileWork.on_change _

/-- All files below a free number move on. -/
theorem Shifted.shiftBelow (h : Shifted log (m + 1) high t t₁) (lt : m < high)
    (files : ∀ i ≤ m, t.stat (numbered log i) ≠ .ok .folder)
    (named : ∀ i ≤ m, t.exists (numbered log i) = true → Nameable (numbered log (i + 1))) :
    ∃ t₂, Shifted log 1 high t t₂ ∧ ∀ {rename}, Careful rename →
      (shiftBelowWith rename log (m + 1)).on t₁ = (.ok (), t₂) := by
  -- The greatest number goes first, so that each file finds the next number free.
  induction m generalizing t₁ with
  | zero => exact ⟨t₁, h, fun _ => rfl⟩
  | succ m ih =>
    have moved : ∃ t₂, Shifted log (m + 1) high t t₂ ∧ ∀ {rename}, Careful rename →
        (shiftWith rename log (m + 1)).on t₁ = (.ok (), t₂) := by
      rcases h.step lt (files _ (Nat.le_refl _)) (named _ (Nat.le_refl _)) with
        ⟨missing, shifted⟩ | ⟨t₂, there, renamed, shifted⟩
      · exact ⟨t₁, shifted, fun _ => shiftWith_of_missing missing⟩
      · refine ⟨t₂, shifted, fun careful => ?_⟩
        have usual := careful t₁ (slot log (m + 1)) (slot log (m + 2)) h.free
        have renamed : t₁.rename (slot log (m + 1)) (slot log (m + 2)) = .ok t₂ := renamed
        rw [shiftWith_of_there there, usual, renamed]
    obtain ⟨t₂, shifted, first⟩ := moved
    obtain ⟨t₃, shifted, rest⟩ := ih shifted (by omega) (fun i le => files i (by omega))
      fun i le => named i (by omega)
    refine ⟨t₃, shifted, fun careful => ?_⟩
    rw [shiftBelowWith, FileWork.on_bind_ok (first careful)]
    exact rest careful

theorem drop_of_missing (missing : t.exists (slot log m) = false) :
    (drop log m).on t = (.ok (), t) := by
  rw [drop, FileWork.on_get_bind, if_neg (by simp [missing])]
  rfl

theorem drop_of_there (there : t.exists (slot log m) = true) :
    (drop log m).on t =
      match t.removeFile (slot log m) with
      | .ok t' => (.ok (), t')
      | .error e => (.error e, t) := by
  rw [drop, FileWork.on_get_bind, if_pos there]
  exact FileWork.on_change _

/-- The file with the last number makes room. -/
theorem shifted_of_drop (whole : t.WellFormed) (reached : t.Reaches log)
    (file : t.stat (numbered log (m + 1)) ≠ .ok .folder) :
    ∃ t', (drop log (m + 1)).on t = (.ok (), t') ∧ Shifted log (m + 1) (m + 1) t t' := by
  cases there : t.exists (numbered log (m + 1)) with
  | false =>
    exact ⟨t, drop_of_missing there, rfl, whole, reached, reached, there,
      fun i least most => absurd (Nat.lt_of_le_of_lt least most) (Nat.lt_irrefl _),
      fun _ _ => rfl⟩
  | true =>
    obtain ⟨node, found⟩ := exists_iff.mp there
    cases node with
    | folder => exact absurd found file
    | file content =>
      have removed : t.removeFile (slot log (m + 1)) = .ok (t.erase (place t log (m + 1))) :=
        FileTree.removeFile_of_stat found
      refine ⟨_, ?_, shifted_of_removed whole found⟩
      rw [drop_of_there there, removed]

theorem rotateWith_on_of_due (ripe : due log size t = true) :
    (rotateWith rename log size count).on t =
      if count = 0 then (FileWork.change (·.removeFile log)).on t
      else (do
        drop log count
        shiftBelowWith rename log count
        FileWork.change (rename · log (slot log 1)) : FileWork Unit).on t := by
  rw [rotateWith, FileWork.on_get_bind]
  split
  case h_1 missing => simp [due, missing] at ripe
  case h_2 failed => simp [due, failed] at ripe
  case h_3 node found =>
    have large : ¬ node.size < size := by simpa [due, found] using ripe
    rw [if_neg large]
    split <;> rfl

/-- Before it is due a rotation renames nothing. -/
theorem rotateWith_on_of_not_due (early : due log size t = false) :
    (rotateWith rename log size count).on t = (rotate log size count).on t := by
  rw [rotateWith, rotate, FileWork.on_get_bind, FileWork.on_get_bind]
  cases found : t.stat log with
  | error e => cases e <;> rfl
  | ok node =>
    have small : node.size < size := by simpa [due, found] using early
    dsimp only
    rw [if_pos small, if_pos small]

/-- A log that has reached a size and is no folder is a file. -/
theorem file_of_due (ripe : due log size t = true) (notFolder : t.stat log ≠ .ok .folder) :
    ∃ content, t.stat (numbered log 0) = .ok (.file content) := by
  cases found : t.stat log with
  | error e => simp [due, found] at ripe
  | ok node =>
    cases node with
    | folder => exact absurd found notFolder
    | file content => exact ⟨content, found⟩

/-- A rotation of files whose next numbers can all be named succeeds, and moves them all. -/
theorem shifted_of_rotate (whole : t.WellFormed) (ripe : due log size t = true)
    (files : ∀ i ≤ count, t.stat (numbered log i) ≠ .ok .folder)
    (named : ∀ i < count, t.exists (numbered log i) = true → Nameable (numbered log (i + 1))) :
    ∃ t', Shifted log 0 count t t' ∧ ∀ {rename}, Careful rename →
      (rotateWith rename log size count).on t = (.ok (), t') := by
  obtain ⟨content, file⟩ := file_of_due ripe (files 0 (Nat.zero_le count))
  have reached : t.Reaches log := (stat_eq_ok_iff.mp file).2.1
  cases count with
  | zero =>
    refine ⟨_, shifted_of_removed whole file, fun _ => ?_⟩
    have removed : t.removeFile log = .ok (t.erase (place t log 0)) :=
      FileTree.removeFile_of_stat file
    rw [rotateWith_on_of_due ripe, if_pos rfl, FileWork.on_change, removed]
  | succ count =>
    obtain ⟨t₁, dropped, shifted⟩ := shifted_of_drop whole reached (files _ (Nat.le_refl _))
    obtain ⟨t₂, shifted, below⟩ := shifted.shiftBelow (Nat.lt_succ_self count)
      (fun i le => files i (by omega)) fun i le => named i (by omega)
    have last := shifted.step (Nat.succ_pos count) (files 0 (Nat.zero_le _))
      (named 0 (Nat.succ_pos count))
    have there : t₂.exists (numbered log 0) = true :=
      exists_iff.mpr ⟨_, (shifted.stat_other (.inl Nat.one_pos) _).mpr file⟩
    rcases last with ⟨missing, -⟩ | ⟨t₃, -, renamed, done⟩
    · rw [there] at missing
      cases missing
    · refine ⟨t₃, done, fun careful => ?_⟩
      have usual := careful t₂ log (slot log 1) shifted.free
      have renamed : t₂.rename log (slot log 1) = .ok t₃ := renamed
      rw [rotateWith_on_of_due ripe, if_neg (Nat.succ_ne_zero count),
        FileWork.on_bind_ok dropped, FileWork.on_bind_ok (below careful), FileWork.on_change, usual,
        renamed]

/-- Numbers that are not there are passed over. -/
theorem shiftBelowWith_on_of_missing (lt : i < count)
    (missing : ∀ j, i < j → j ≤ count → t.exists (numbered log j) = false) :
    (shiftBelowWith rename log count).on t = (shiftBelowWith rename log (i + 1)).on t := by
  induction count with
  | zero => cases lt
  | succ count ih =>
    by_cases last : i = count
    · rw [last]
    · obtain ⟨count, rfl⟩ := Nat.exists_eq_succ_of_ne_zero (by omega : count ≠ 0)
      have passed : (shiftWith rename log (count + 1)).on t = (.ok (), t) :=
        shiftWith_of_missing (missing (count + 1) (by omega) (by omega))
      rw [shiftBelowWith, FileWork.on_bind_ok passed]
      exact ih (by omega) fun j after le => missing j after (by omega)

/-- While there is no numbered file, a rotation just renames the log. -/
theorem rotate_of_unnumbered (ripe : due log size t = true)
    (missing : ∀ i, 0 < i → i ≤ count + 1 → t.exists (numbered log i) = false) :
    (rotate log size (count + 1)).on t =
      (FileWork.change (·.rename log (slot log 1))).on t := by
  have dropped : (drop log (count + 1)).on t = (.ok (), t) :=
    drop_of_missing (missing (count + 1) (Nat.succ_pos count) (Nat.le_refl _))
  have below : (shiftBelow log (count + 1)).on t = (.ok (), t) := by
    rw [← shiftBelowWith_rename]
    exact shiftBelowWith_on_of_missing (Nat.succ_pos count) missing
  rw [rotate_of_due ripe, FileWork.on_bind_ok dropped, FileWork.on_bind_ok below]

/-- A rotation that would need a name that is too long fails and changes nothing. -/
theorem refused_of_rotate (ripe : due log size t = true) (lt : i < count)
    (there : t.exists (numbered log i) = true) (unnamed : ¬ Nameable (numbered log (i + 1)))
    (careful : Careful rename) :
    (rotateWith rename log size count).on t = (.error .nameTooLong, t) := by
  obtain ⟨node, found⟩ := exists_iff.mp there
  obtain ⟨nameable, way, -⟩ := stat_eq_ok_iff.mp found
  have reached : t.Reaches log := (reaches_numbered_iff t log i).mp way
  -- Greater numbers make longer names, so none of them is there either.
  have missing : ∀ j, i < j → t.exists (numbered log j) = false := by
    intro j after
    obtain ⟨j, rfl⟩ := Nat.exists_eq_succ_of_ne_zero (by omega : j ≠ 0)
    rw [exists_eq_false_iff]
    intro node found
    exact unnamed (nameable_slot_of_le (stat_eq_ok_iff.mp found).1 (by omega))
  have refused : rename t (numbered log i) (numbered log (i + 1)) = .error .nameTooLong := by
    rw [careful _ _ _ (missing (i + 1) (Nat.lt_succ_self i))]
    exact FileTree.rename_of_resolve_error (FileTree.resolve_eq_ok_iff.mpr ⟨nameable, way, rfl⟩)
      (resolve_slot_of_not_nameable reached (zero_not_mem nameable) unnamed)
  obtain ⟨count, rfl⟩ := Nat.exists_eq_succ_of_ne_zero (by omega : count ≠ 0)
  have dropped : (drop log (count + 1)).on t = (.ok (), t) :=
    drop_of_missing (missing (count + 1) lt)
  have passed : (shiftBelowWith rename log (count + 1)).on t =
      (shiftBelowWith rename log (i + 1)).on t :=
    shiftBelowWith_on_of_missing lt fun j after _ => missing j after
  rw [rotateWith_on_of_due ripe, if_neg (Nat.succ_ne_zero count), FileWork.on_bind_ok dropped]
  cases i with
  | zero =>
    have below : (shiftBelowWith rename log (count + 1)).on t = (.ok (), t) := passed
    have refused : rename t log (slot log 1) = .error .nameTooLong := refused
    rw [FileWork.on_bind_ok below, FileWork.on_change, refused]
  | succ i =>
    have failed : (shiftWith rename log (i + 1)).on t = (.error .nameTooLong, t) := by
      have refused : rename t (slot log (i + 1)) (slot log (i + 2)) = .error .nameTooLong := refused
      rw [shiftWith_of_there there, refused]
    have below : (shiftBelowWith rename log (count + 1)).on t = (.error .nameTooLong, t) := by
      rw [passed, shiftBelowWith, FileWork.on_bind_error failed]
    rw [FileWork.on_bind_error below]

end Runs

/-- No way of renaming makes a difference that makes none where there is nothing. -/
theorem rotateWith_on (whole : t.WellFormed)
    (files : ∀ i ≤ count, t.stat (numbered log i) ≠ .ok .folder)
    {rename : FileTree → Path → Path → Except IoError FileTree} (careful : Careful rename) :
    (rotateWith rename log size count).on t = (rotate log size count).on t := by
  cases ripe : due log size t with
  | false => exact rotateWith_on_of_not_due ripe
  | true =>
    rw [← rotateWith_rename]
    by_cases named : ∀ i < count, t.exists (numbered log i) = true →
        Nameable (numbered log (i + 1))
    · obtain ⟨t', -, run⟩ := shifted_of_rotate whole ripe files named
      rw [run careful, run careful_rename]
    · push Not at named
      obtain ⟨i, lt, there, unnamed⟩ := named
      rw [refused_of_rotate ripe lt there unnamed careful,
        refused_of_rotate ripe lt there unnamed careful_rename]

/-- A folder in the place of the last file stops a rotation before it has changed anything. -/
theorem rotate_of_folder (ripe : due log size t = true)
    (folder : t.stat (numbered log count) = .ok .folder) :
    (rotate log size count).on t = (.error .isDirectory, t) := by
  have refused := FileTree.removeFile_of_folder folder
  rw [← rotateWith_rename, rotateWith_on_of_due ripe]
  cases count with
  | zero =>
    have refused : t.removeFile log = .error .isDirectory := refused
    rw [if_pos rfl, FileWork.on_change, refused]
  | succ count =>
    have refused : t.removeFile (slot log (count + 1)) = .error .isDirectory := refused
    have failed : (drop log (count + 1)).on t = (.error .isDirectory, t) := by
      rw [drop_of_there (exists_iff.mpr ⟨_, folder⟩), refused]
    rw [if_neg (Nat.succ_ne_zero count), FileWork.on_bind_error failed]

/-- A rotation that is due moves each of the files of a log to the next number, whichever of them
are there: the log itself is free afterwards, the last file is lost, and nothing else changes.
No file is renamed to one that is there.  It fails, and changes nothing, if a file would get a
name that is too long, or if the last of them is a folder; it also changes nothing if it is not
due. -/
theorem rotate_shifts (whole : t.WellFormed) (log : Path) (size count : Nat) :
    (due log size t = false → ((rotate log size count).on t).2 = t) ∧
    (due log size t = true → t.stat (numbered log count) = .ok .folder →
      (rotate log size count).on t = (.error .isDirectory, t)) ∧
    ((∀ i ≤ count, t.stat (numbered log i) ≠ .ok .folder) →
      (rotateWith renameNew log size count).on t = (rotate log size count).on t ∧
      (due log size t = true →
        ((∀ i < count, t.exists (numbered log i) = true → Nameable (numbered log (i + 1))) →
          ((rotate log size count).on t).1 = .ok () ∧
            Shifted log 0 count t ((rotate log size count).on t).2) ∧
        ((∃ i < count, t.exists (numbered log i) = true ∧ ¬ Nameable (numbered log (i + 1))) →
          (rotate log size count).on t = (.error .nameTooLong, t)))) := by
  refine ⟨rotate_of_not_due, rotate_of_folder, fun files =>
    ⟨rotateWith_on whole files careful_renameNew, fun ripe => ⟨fun named => ?_, ?_⟩⟩⟩
  · obtain ⟨t', shifted, run⟩ := shifted_of_rotate whole ripe files named
    rw [← rotateWith_rename, run careful_rename]
    exact ⟨rfl, shifted⟩
  · rintro ⟨i, lt, there, unnamed⟩
    rw [← rotateWith_rename]
    exact refused_of_rotate ripe lt there unnamed careful_rename

/-- A log whose first number is free and whose second file is lost. -/
theorem rotate_shifts_with_gap :
    let log : Path := .ofString "a"
    let t : FileTree := ⟨[], [([Utf8.encode "a"], .file "now".toUTF8),
      ([Utf8.encode "a.2"], .file "old".toUTF8), ([Utf8.encode "b"], .folder)]⟩
    t.WellFormed ∧ due log 3 t = true ∧ ((rotate log 3 2).on t).1 = .ok () ∧
      Shifted log 0 2 t ((rotate log 3 2).on t).2 := by
  intro log t
  have whole : t.WellFormed := FileTree.wellFormed_of_nodes (by decide)
  have files : ∀ i ≤ 2, t.stat (numbered log i) ≠ .ok .folder := by decide +kernel
  have reachedSize : due log 3 t = true := by decide +kernel
  have named : ∀ i < 2, t.exists (numbered log i) = true → Nameable (numbered log (i + 1)) := by
    have last : Nameable (slot log 2) := ⟨by decide +kernel, by decide +kernel⟩
    exact fun i lt _ => nameable_slot_of_le last (by omega)
  obtain ⟨-, -, moves⟩ := rotate_shifts whole log 3 2
  exact ⟨whole, reachedSize, ((moves files).2 reachedSize).1 named⟩

/-- A log whose name has no room for a number cannot be rotated, and stays. -/
theorem rotate_refuses_long_name :
    let name : Bytes := List.replicate 255 97
    let log : Path := ⟨name⟩
    let t : FileTree := ⟨[], [([name], .file "x".toUTF8)]⟩
    t.WellFormed ∧ (∀ i ≤ 1, t.stat (numbered log i) ≠ .ok .folder) ∧ due log 1 t = true ∧
      (rotate log 1 1).on t = (.error .nameTooLong, t) := by
  intro name log t
  have whole : t.WellFormed := FileTree.wellFormed_of_nodes (by decide)
  have files : ∀ i ≤ 1, t.stat (numbered log i) ≠ .ok .folder := by decide +kernel
  have reachedSize : due log 1 t = true := by decide +kernel
  have there : t.exists (numbered log 0) = true := by decide +kernel
  have unnamed : ¬ Nameable (numbered log 1) := by
    intro named
    have short := named.short
    revert short
    decide +kernel
  refine ⟨whole, files, reachedSize, ?_⟩
  rw [← rotateWith_rename]
  exact refused_of_rotate reachedSize Nat.one_pos there unnamed careful_rename

end LanguageClient.LogFile
