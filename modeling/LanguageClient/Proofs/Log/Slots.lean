import LanguageClient.Log.File
import LanguageClient.Proofs.Files.Work
import LanguageClient.Proofs.Number.Digits
import LanguageClient.Proofs.Text.Utf8

/-!
# The files of a log

A log and its numbered files lie in one folder, each at a place of its own.
-/

set_option autoImplicit false

namespace LanguageClient.LogFile

variable {log : Path} {t t' : FileTree} {i j : Nat}

/-- The path of a file of a log, number zero for the log itself. -/
def numbered (log : Path) : Nat → Path
  | 0 => log
  | number + 1 => slot log (number + 1)

/-- What the name of a numbered file has behind the name of the log. -/
def ending (number : Nat) : Bytes := Utf8.encode ("." ++ toString number)

theorem text_ending (number : Nat) :
    ("." ++ toString number).toList = '.' :: Number.natText number := by
  simp [Number.natText, Nat.repr]

theorem ending_eq (number : Nat) :
    ending number = Path.dot :: (Number.natText number).map fun c => UInt8.ofNat c.toNat := by
  rw [ending, Utf8.encode_ascii, text_ending]
  · rfl
  · intro c hc
    rw [text_ending] at hc
    rcases List.mem_cons.1 hc with rfl | digit
    · decide
    · have := (Number.isDigit_iff c).1 (Number.isDigit_of_mem_natText digit)
      omega

theorem ending_inj (h : ending i = ending j) : i = j := by
  have texts : Number.natText i = Number.natText j := by
    have chars := congrArg Utf8.chars? h
    rw [ending, ending, Utf8.chars?_encode, Utf8.chars?_encode, text_ending, text_ending] at chars
    simpa using chars
  calc i = Number.natOfDigits (Number.natText i) := (Number.natOfDigits_natText i).symm
    _ = Number.natOfDigits (Number.natText j) := by rw [texts]
    _ = j := Number.natOfDigits_natText j

/-- Behind the dot of an ending there is a digit. -/
theorem exists_ending_eq (number : Nat) :
    ∃ digit rest, ending number = Path.dot :: digit :: rest ∧ 48 ≤ digit := by
  obtain ⟨c, cs, text⟩ := List.exists_cons_of_ne_nil (Number.natText_ne_nil number)
  refine ⟨UInt8.ofNat c.toNat, cs.map fun c => UInt8.ofNat c.toNat, ?_, ?_⟩
  · rw [ending_eq, text, List.map_cons]
  · have digit := (Number.isDigit_iff c).1 (Number.isDigit_of_mem_natText (text ▸ List.mem_cons_self))
    rw [UInt8.le_iff_toNat_le, Utf8.toNat_ofNat (by omega)]
    exact digit.1

/-- An ending is a dot and digits. -/
theorem mem_ending {b : UInt8} {number : Nat} (h : b ∈ ending number) :
    b = Path.dot ∨ 48 ≤ b.toNat ∧ b.toNat ≤ 57 := by
  rw [ending_eq] at h
  refine (List.mem_cons.1 h).imp_right fun digit => ?_
  obtain ⟨c, hc, rfl⟩ := List.mem_map.1 digit
  have range := (Number.isDigit_iff c).1 (Number.isDigit_of_mem_natText hc)
  rwa [Utf8.toNat_ofNat (by omega)]

theorem separator_not_mem_ending (number : Nat) : Path.separator ∉ ending number := by
  intro h
  have range := mem_ending h
  revert range
  decide

theorem zero_not_mem_ending (number : Nat) : 0 ∉ ending number := by
  intro h
  have range := mem_ending h
  revert range
  decide

theorem length_ending_le (le : i ≤ j) : (ending i).length ≤ (ending j).length := by
  have digits := Number.length_natText_le le
  simpa [ending_eq] using digits

/-! ## Places -/

theorem parts_slot (log : Path) (number : Nat) :
    Path.parts (slot log number).bytes =
      (Path.parts log.bytes).dropLast ++ [log.lastPart ++ ending number] :=
  Path.parts_append (separator_not_mem_ending number)

theorem lastPart_slot (log : Path) (number : Nat) :
    (slot log number).lastPart = log.lastPart ++ ending number := by
  rw [Path.lastPart, parts_slot]
  simp [List.getLastD_eq_getLast?]

theorem start_slot (t : FileTree) (log : Path) (number : Nat) :
    t.start (slot log number) = t.start log := by
  have absolute : (slot log number).isAbsolute = log.isAbsolute := by
    have bytes : (slot log number).bytes = log.bytes ++ ending number := rfl
    rw [Path.isAbsolute, Path.isAbsolute, bytes]
    cases log.bytes with
    | nil => rw [List.nil_append, ending_eq]; rfl
    | cons b rest => rfl
  rw [FileTree.start, FileTree.start, absolute]

theorem room_slot (t : FileTree) (log : Path) (number : Nat) :
    t.room (slot log number) = t.room log := by
  rw [FileTree.room, parts_slot, start_slot]
  simp [FileTree.room]

/-- The way to a numbered file is the way to its log. -/
theorem reaches_slot_iff (t : FileTree) (log : Path) (number : Nat) :
    t.Reaches (slot log number) ↔ t.Reaches log := by
  have walk : t.walk (slot log number) = t.walk log := by
    funext parts
    have starts : t.start (slot log number) = t.start log := start_slot t log number
    simp only [FileTree.start] at starts
    rw [FileTree.walk, FileTree.walk, starts]
  rw [FileTree.Reaches, FileTree.Reaches, walk, room_slot, parts_slot]
  simp

theorem destination_slot (t : FileTree) (log : Path) (number : Nat) :
    t.destination (slot log number) = t.room log ++ [log.lastPart ++ ending number] := by
  obtain ⟨digit, rest, eq, low⟩ := exists_ending_eq number
  have two : digit ≠ Path.dot := by
    rintro rfl
    revert low
    decide
  rw [FileTree.destination_eq, room_slot, lastPart_slot, FileTree.lead, if_neg, if_neg]
  · rw [eq]
    cases log.lastPart with
    | nil => simp [two]
    | cons b more => cases more <;> simp
  · rw [eq]
    cases log.lastPart with
    | nil => simp
    | cons b more => simp

/-- The place of a file of a log. -/
def place (t : FileTree) (log : Path) (number : Nat) : Place := t.destination (numbered log number)

theorem place_congr (h : t'.current = t.current) (log : Path) (number : Nat) :
    place t' log number = place t log number :=
  FileTree.destination_congr h (numbered log number)

theorem reaches_numbered_iff (t : FileTree) (log : Path) (number : Nat) :
    t.Reaches (numbered log number) ↔ t.Reaches log := by
  cases number with
  | zero => exact Iff.rfl
  | succ number => exact reaches_slot_iff t log (number + 1)

theorem place_succ (t : FileTree) (log : Path) (number : Nat) :
    place t log (number + 1) = t.room log ++ [log.lastPart ++ ending (number + 1)] :=
  destination_slot t log (number + 1)

theorem place_succ_ne_nil (t : FileTree) (log : Path) (number : Nat) :
    place t log (number + 1) ≠ [] := by
  simp [place_succ]

/-- A log is nothing special in its own folder, or names what that folder lies in. -/
theorem place_zero_cases (t : FileTree) (log : Path) :
    place t log 0 = t.room log ++ [log.lastPart] ∨ place t log 0 <+: t.room log := by
  have named : place t log 0 = FileTree.lead (t.room log) log.lastPart :=
    FileTree.destination_eq t log
  rw [named, FileTree.lead]
  split
  · exact .inr (List.prefix_refl _)
  · split
    · exact .inr (List.dropLast_prefix _)
    · exact .inl rfl

theorem prefix_concat_iff {folder : Place} {a b : Bytes} :
    folder ++ [a] <+: folder ++ [b] ↔ a = b := by
  simp [List.prefix_append_right_inj]

theorem ending_ne_nil (number : Nat) : ending number ≠ [] := by simp [ending_eq]

/-- No numbered file is on the way to another file of the log. -/
theorem not_prefix_place (t : FileTree) (log : Path) (h : j ≠ i + 1) :
    ¬ place t log (i + 1) <+: place t log j := by
  intro within
  rw [place_succ] at within
  cases j with
  | succ j =>
    rw [place_succ, prefix_concat_iff, List.append_cancel_left_eq] at within
    exact h (ending_inj within).symm
  | zero =>
    rcases place_zero_cases t log with named | above
    · rw [named, prefix_concat_iff] at within
      exact ending_ne_nil (i + 1) (List.append_right_eq_self.1 within)
    · have short := (within.trans above).length_le
      rw [List.length_append, List.length_singleton] at short
      omega

/-- A log that is not on the way to one of its numbered files is on the way to none. -/
theorem not_prefix_place_zero (t : FileTree) (log : Path)
    (h : ¬ place t log 0 <+: place t log (i + 1)) (other : j ≠ 0) :
    ¬ place t log 0 <+: place t log j := by
  obtain ⟨j, rfl⟩ := Nat.exists_eq_succ_of_ne_zero other
  rcases place_zero_cases t log with named | above
  · rw [named, place_succ, prefix_concat_iff]
    intro same
    exact ending_ne_nil (j + 1) (List.append_right_eq_self.1 same.symm)
  · intro _
    apply h
    rw [place_succ]
    exact above.trans (List.prefix_append _ _)

theorem place_ne (t : FileTree) (log : Path) (h : i ≠ j) : place t log i ≠ place t log j := by
  intro same
  cases i with
  | succ i => exact not_prefix_place t log (Ne.symm h) (same ▸ List.prefix_refl _)
  | zero =>
    obtain ⟨j, rfl⟩ := Nat.exists_eq_succ_of_ne_zero (Ne.symm h)
    exact not_prefix_place t log (Ne.symm (Nat.succ_ne_zero j)) (same ▸ List.prefix_refl _)

end LanguageClient.LogFile
