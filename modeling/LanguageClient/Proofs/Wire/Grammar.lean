import LanguageClient.Proofs.Wire.Headers
import Mathlib.Data.List.Forall2

/-!
# The grammar of frames

A frame is a block of header lines, an empty line and a body.  What a sequence of bytes starts
with is decided by its first line that is no header: a line at fault, the empty line, or a line
that is not complete (`Reads`).  How a header is written does not count (`Alike`).
-/

set_option autoImplicit false

namespace LanguageClient.Frame

/-- Lines, each with its line feed. -/
def text (lines : List Bytes) : Bytes := lines.flatMap (· ++ [lineFeed])

/-- The length that a header states. -/
def Header.stated? : Header → Option Nat
  | .length n => some n
  | .last | .ignored => none

/-- A complete line that is a header and does not end the block. -/
structure IsHeader (line : Bytes) (header : Header) : Prop where
  whole : lineFeed ∉ line
  meaning : Means line (.ok header)
  goesOn : header ≠ .last

/-- How reading ends behind the headers of a block, the last stated length of which is given. -/
inductive Ends (length : Option Nat) : Bytes → Scan → Prop
  /-- The next line is not complete, whatever there is of it. -/
  | noLine {bytes : Bytes} (unfinished : lineFeed ∉ bytes) : Ends length bytes .incomplete
  | fault {line rest : Bytes} {f : Fault} (whole : lineFeed ∉ line)
      (meaning : Means line (.error f)) : Ends length (line ++ lineFeed :: rest) (.fault f)
  | missingLength {line rest : Bytes} (empty : ∀ b ∈ line, b = carriageReturn)
      (none : length = none) : Ends length (line ++ lineFeed :: rest) (.fault .missingLength)
  | tooLong {line rest : Bytes} {n : Nat} (empty : ∀ b ∈ line, b = carriageReturn)
      (stated : length = some n) (long : maxBody < n) :
      Ends length (line ++ lineFeed :: rest) (.fault (.tooLong n))
  /-- The body is not complete. -/
  | noBody {line rest : Bytes} {n : Nat} (empty : ∀ b ∈ line, b = carriageReturn)
      (stated : length = some n) (small : n ≤ maxBody) (unfinished : rest.length < n) :
      Ends length (line ++ lineFeed :: rest) .incomplete
  | body {line body rest : Bytes} (empty : ∀ b ∈ line, b = carriageReturn)
      (stated : length = some body.length) (small : body.length ≤ maxBody) :
      Ends length (line ++ lineFeed :: (body ++ rest)) (.frame body rest)

/-- What a sequence of bytes starts with: after as many headers as there are in front, of which
the last one that states a length counts. -/
def Reads (bytes : Bytes) (r : Scan) : Prop :=
  ∃ lines headers after, bytes = text lines ++ after ∧ List.Forall₂ IsHeader lines headers ∧
    Ends (headers.filterMap Header.stated?).getLast? after r

variable {line line' bytes after rest : Bytes} {lines lines' : List Bytes}
  {headers : List Header} {length : Option Nat} {r : Scan}

/-! ## Reading by lines -/

theorem text_cons_append (line : Bytes) (lines : List Bytes) (after : Bytes) :
    text (line :: lines) ++ after = line ++ lineFeed :: (text lines ++ after) := by
  simp [text]

theorem scanHeader_unfinished (unfinished : lineFeed ∉ bytes) (line : Bytes)
    (length : Option Nat) : scanHeader line length bytes = .incomplete := by
  induction bytes generalizing line with
  | nil => rfl
  | cons b bytes ih =>
    obtain ⟨other, later⟩ := List.ne_and_not_mem_of_not_mem_cons unfinished
    rw [scanHeader, if_neg other.symm, ih later]

/-- A complete line is read as a whole. -/
theorem scanHeader_feed (whole : lineFeed ∉ line) (length : Option Nat) (rest : Bytes) :
    scanHeader [] length (line ++ lineFeed :: rest) =
      match readLine line with
      | .error f => .fault f
      | .ok .last => scanBody length rest
      | .ok header => scanHeader [] (header.stated?.or length) rest := by
  have other : ∀ b ∈ line, b ≠ lineFeed := by
    rintro b hb rfl
    exact whole hb
  rw [scanHeader_line other, scanHeader, if_pos rfl, List.append_nil, List.reverse_reverse]
  rcases readLine line with f | _ | n | _ <;> rfl

theorem IsHeader.scanHeader_eq {header : Header} (h : IsHeader line header)
    (length : Option Nat) (rest : Bytes) : scanHeader [] length (line ++ lineFeed :: rest) =
      scanHeader [] (header.stated?.or length) rest := by
  rw [scanHeader_feed h.whole, h.meaning.readLine_eq h.whole]
  cases header with
  | last => exact absurd rfl h.goesOn
  | length n => rfl
  | ignored => rfl

/-- The length that counts after one more header in front. -/
theorem stated_cons (header : Header) (headers : List Header) (length : Option Nat) :
    ((header :: headers).filterMap Header.stated?).getLast?.or length =
      (headers.filterMap Header.stated?).getLast?.or (header.stated?.or length) := by
  cases stated : header.stated? with
  | none => rw [List.filterMap_cons_none stated, Option.none_or]
  | some n =>
    rw [List.filterMap_cons_some stated, List.getLast?_cons]
    cases (headers.filterMap Header.stated?).getLast? <;> rfl

/-- A block of headers is read one after the other. -/
theorem scanHeader_text (block : List.Forall₂ IsHeader lines headers) (length : Option Nat)
    (after : Bytes) : scanHeader [] length (text lines ++ after) =
      scanHeader [] ((headers.filterMap Header.stated?).getLast?.or length) after := by
  induction block generalizing length with
  | nil => rfl
  | cons header _ ih => rw [text_cons_append, header.scanHeader_eq, ih, stated_cons]

theorem scanHeader_empty (empty : ∀ b ∈ line, b = carriageReturn) (length : Option Nat)
    (rest : Bytes) : scanHeader [] length (line ++ lineFeed :: rest) = scanBody length rest := by
  have whole : lineFeed ∉ line := by
    intro here
    exact absurd (empty _ here) (by decide)
  rw [scanHeader_feed whole, (Means.last empty).readLine_eq whole]

/-! ## Reading by the grammar -/

theorem Ends.scanHeader_eq (ends : Ends length after r) : scanHeader [] length after = r := by
  cases ends with
  | noLine unfinished => exact scanHeader_unfinished unfinished [] length
  | fault whole meaning => rw [scanHeader_feed whole, meaning.readLine_eq whole]
  | missingLength empty none => rw [scanHeader_empty empty, none, scanBody]
  | tooLong empty stated long => rw [scanHeader_empty empty, stated, scanBody, if_pos long]
  | noBody empty stated small unfinished =>
    rw [scanHeader_empty empty, stated, scanBody, if_neg (Nat.not_lt.mpr small),
      if_pos unfinished]
  | @body line body rest empty stated small =>
    have enough : ¬ (body ++ rest).length < body.length := by
      rw [List.length_append]
      omega
    rw [scanHeader_empty empty, stated, scanBody, if_neg (Nat.not_lt.mpr small),
      if_neg enough, List.take_left, List.drop_left]

/-- Behind an empty line there is a body, or what is wrong with it is known. -/
theorem exists_ends_of_empty (empty : ∀ b ∈ line, b = carriageReturn) (length : Option Nat)
    (rest : Bytes) : ∃ r, Ends length (line ++ lineFeed :: rest) r := by
  cases length with
  | none => exact ⟨_, .missingLength empty rfl⟩
  | some n =>
    by_cases long : maxBody < n
    · exact ⟨_, .tooLong empty rfl long⟩
    by_cases unfinished : rest.length < n
    · exact ⟨_, .noBody empty rfl (Nat.not_lt.mp long) unfinished⟩
    have size : (rest.take n).length = n := List.length_take_of_le (Nat.not_lt.mp unfinished)
    have ends : Ends (some n) (line ++ lineFeed :: (rest.take n ++ rest.drop n))
        (.frame (rest.take n) (rest.drop n)) :=
      .body empty (congrArg some size.symm) (size.symm ▸ Nat.not_lt.mp long)
    rw [List.take_append_drop] at ends
    exact ⟨_, ends⟩

/-- Every sequence of bytes is headers and an end. -/
theorem exists_ends (bytes : Bytes) (length : Option Nat) :
    ∃ lines headers after r, bytes = text lines ++ after ∧
      List.Forall₂ IsHeader lines headers ∧
      Ends ((headers.filterMap Header.stated?).getLast?.or length) after r := by
  by_cases feed : lineFeed ∈ bytes
  · obtain ⟨line, rest, split, whole⟩ := List.eq_append_cons_of_mem feed
    have shorter : rest.length < bytes.length := by
      rw [split, List.length_append, List.length_cons]
      omega
    obtain ⟨meant, meaning⟩ := exists_meaning line
    -- A header is followed by the headers and the end of what is behind it.
    have further : ∀ header : Header, header ≠ .last → Means line (.ok header) →
        ∃ lines headers after r, bytes = text lines ++ after ∧
          List.Forall₂ IsHeader lines headers ∧
          Ends ((headers.filterMap Header.stated?).getLast?.or length) after r := by
      intro header goesOn meaning
      obtain ⟨lines, headers, after, r, behind, block, ends⟩ :=
        exists_ends rest (header.stated?.or length)
      refine ⟨line :: lines, header :: headers, after, r, ?_,
        .cons ⟨whole, meaning, goesOn⟩ block, ?_⟩
      · rw [split, text_cons_append, ← behind]
      · rw [stated_cons]
        exact ends
    rcases meant with f | _ | n | _
    · have ends : Ends length (line ++ lineFeed :: rest) (.fault f) := .fault whole meaning
      exact ⟨[], [], bytes, _, rfl, .nil, split ▸ ends⟩
    · cases meaning with
      | last empty =>
        obtain ⟨r, ends⟩ := exists_ends_of_empty empty length rest
        exact ⟨[], [], bytes, r, rfl, .nil, split ▸ ends⟩
    · exact further (.length n) nofun meaning
    · exact further .ignored nofun meaning
  · exact ⟨[], [], bytes, _, rfl, .nil, .noLine feed⟩
termination_by bytes.length

theorem scan_of_ends (block : List.Forall₂ IsHeader lines headers)
    (ends : Ends (headers.filterMap Header.stated?).getLast? after r) :
    scan (text lines ++ after) = r := by
  rw [scan, scanHeader_text block, Option.or_none, ends.scanHeader_eq]

/-- Scanning finds what the grammar says, and nothing else. -/
theorem scan_eq_iff : scan bytes = r ↔ Reads bytes r := by
  constructor
  · rintro rfl
    obtain ⟨lines, headers, after, r, rfl, block, ends⟩ := exists_ends bytes none
    rw [Option.or_none] at ends
    rw [scan_of_ends block ends]
    exact ⟨lines, headers, after, rfl, block, ends⟩
  · rintro ⟨lines, headers, after, rfl, block, ends⟩
    exact scan_of_ends block ends

/-! ## Other ways to write a header -/

/-- Spaces and tabs around bytes. -/
def Padded (core bytes : Bytes) : Prop :=
  ∃ left right, bytes = left ++ core ++ right ∧ (∀ b ∈ left, b = 32 ∨ b = 9) ∧
    ∀ b ∈ right, b = 32 ∨ b = 9

/-- Two lines of one known header that differ in the case of its name, in the spaces and tabs
around name and value, and in the carriage returns at the end. -/
inductive Respelled : Bytes → Bytes → Prop
  | mk {name name' key key' core value value' returns returns' : Bytes}
      (whole : lineFeed ∉ name ++ core)
      (known : Spells (chars name) lengthName ∨ Spells (chars name) typeName)
      (same : (chars name').map Char.toLower = (chars name).map Char.toLower)
      (keyed : Padded name key) (keyed' : Padded name' key')
      (valued : Padded core value) (valued' : Padded core value')
      (ending : ∀ b ∈ returns, b = carriageReturn)
      (ending' : ∀ b ∈ returns', b = carriageReturn) :
      Respelled (key ++ colon :: (value ++ returns)) (key' ++ colon :: (value' ++ returns'))

/-- Lines before the empty one that differ only in how the known headers are written, and in
headers that carry nothing of use. -/
inductive Alike : List Bytes → List Bytes → Prop
  | nil : Alike [] []
  | same {line : Bytes} {lines lines' : List Bytes} (whole : lineFeed ∉ line)
      (nonempty : ∃ b ∈ line, b ≠ carriageReturn) (others : Alike lines lines') :
      Alike (line :: lines) (line :: lines')
  | respelled {line line' : Bytes} {lines lines' : List Bytes} (first : Respelled line line')
      (others : Alike lines lines') : Alike (line :: lines) (line' :: lines')
  | inserted {line : Bytes} {lines lines' : List Bytes} (idle : IsHeader line .ignored)
      (others : Alike lines lines') : Alike lines (line :: lines')
  | removed {line : Bytes} {lines lines' : List Bytes} (idle : IsHeader line .ignored)
      (others : Alike lines lines') : Alike (line :: lines) lines'

section Case

variable {c d : Char} {cs ds : List Char}

/-- Only letters have another case. -/
theorem eq_of_toLower_eq (same : c.toLower = d) (other : ¬ (97 ≤ d.toNat ∧ d.toNat ≤ 122)) :
    c = d := by
  have table : ∀ n < 91, 65 ≤ n →
      97 ≤ (Char.ofNat n).toLower.toNat ∧ (Char.ofNat n).toLower.toNat ≤ 122 := by decide
  by_cases capital : 65 ≤ c.toNat ∧ c.toNat ≤ 90
  · have small := table c.toNat (by omega) capital.1
    rw [Char.ofNat_toNat, same] at small
    exact absurd small other
  · rwa [toLower_of_not_capital capital] at same

theorem mem_of_map_toLower_eq (same : cs.map Char.toLower = ds.map Char.toLower) (here : c ∈ cs)
    (other : ¬ (65 ≤ c.toNat ∧ c.toNat ≤ 90)) (other' : ¬ (97 ≤ c.toNat ∧ c.toNat ≤ 122)) :
    c ∈ ds := by
  have still : c.toLower = c := toLower_of_not_capital other
  have image : c ∈ ds.map Char.toLower := by
    rw [← same, ← still]
    exact List.mem_map_of_mem here
  obtain ⟨d, hd, lowered⟩ := List.mem_map.mp image
  exact eq_of_toLower_eq lowered other' ▸ hd

theorem map_toLower_trim (cs : List Char) :
    (Text.trim cs).map Char.toLower = Text.trim (cs.map Char.toLower) := by
  have blank : Text.isBlank ∘ Char.toLower = Text.isBlank := funext isBlank_toLower
  simp [Text.trim, Text.trimBoth, List.dropWhile_map, blank, ← List.map_reverse]

theorem sameName_trim_congr (same : cs.map Char.toLower = ds.map Char.toLower) (name : List Char) :
    sameName (Text.trim cs) name = sameName (Text.trim ds) name := by
  rw [sameName, sameName, map_toLower_trim, map_toLower_trim, same]

theorem Spells.not_mem_colon {name : List Char} (named : Spells cs name) (none : ':' ∉ name) :
    ':' ∉ cs := by
  obtain ⟨left, word, right, rfl, front, back, same⟩ := named
  have visible : Text.isBlank ':' ≠ true := by decide
  intro here
  rcases List.mem_append.mp here with here | here
  · rcases List.mem_append.mp here with here | here
    · exact visible (front _ here)
    · exact none (mem_of_map_toLower_eq same here (by decide) (by decide))
  · exact visible (back _ here)

end Case

theorem Padded.trim_chars {core : Bytes} (padded : Padded core bytes) :
    Text.trim (chars bytes) = Text.trim (chars core) := by
  obtain ⟨left, right, rfl, front, back⟩ := padded
  have blank : ∀ {bytes : Bytes}, (∀ b ∈ bytes, b = 32 ∨ b = 9) →
      ∀ c ∈ chars bytes, Text.isBlank c = true := by
    intro bytes gaps c hc
    obtain ⟨b, hb, rfl⟩ := List.mem_map.mp hc
    rcases gaps b hb with rfl | rfl <;> decide
  rw [chars_append, chars_append]
  exact Text.trimBoth_padded (blank front) (blank back) _

theorem Padded.mem_iff {core : Bytes} (padded : Padded core bytes) {b : UInt8}
    (other : b ≠ 32 ∧ b ≠ 9) : b ∈ bytes ↔ b ∈ core := by
  obtain ⟨left, right, rfl, front, back⟩ := padded
  have away : ∀ {gap : Bytes}, (∀ b ∈ gap, b = 32 ∨ b = 9) → b ∉ gap := by
    intro gap gaps here
    rcases gaps b here with rfl | rfl
    · exact other.1 rfl
    · exact other.2 rfl
  simp [away front, away back]

theorem trim_chars_returns {value returns : Bytes} (ending : ∀ b ∈ returns, b = carriageReturn) :
    Text.trim (chars (value ++ returns)) = Text.trim (chars value) := by
  rw [chars_append]
  apply Text.trimBoth_append_right
  intro c hc
  obtain ⟨b, hb, rfl⟩ := List.mem_map.mp hc
  rw [ending b hb]
  decide

theorem isAscii_iff : IsAscii bytes ↔ ∀ b, 0x80 ≤ b → b ∉ bytes := by
  refine ⟨fun ascii b high here => ?_, fun none b hb => ?_⟩
  · exact UInt8.not_lt.mpr high (ascii b here)
  · exact UInt8.not_le.mp fun high => none b high hb

theorem readLine_of_not_isAscii (ascii : ¬ IsAscii line) : readLine line = .error .notAscii := by
  simp only [IsAscii, not_forall, UInt8.not_lt] at ascii
  obtain ⟨b, here, high⟩ := ascii
  have some : line.any (0x80 ≤ ·) = true := List.any_eq_true.mpr ⟨b, here, decide_eq_true high⟩
  rw [readLine, if_pos some]

/-- Which bytes from 128 on are in a line is decided by its name and its value. -/
theorem mem_respelled_iff {name key core value returns : Bytes} (keyed : Padded name key)
    (valued : Padded core value) (ending : ∀ b ∈ returns, b = carriageReturn) {b : UInt8}
    (high : 0x80 ≤ b) : b ∈ key ++ colon :: (value ++ returns) ↔ b ∈ name ∨ b ∈ core := by
  have other : b ≠ 32 ∧ b ≠ 9 ∧ b ≠ colon ∧ b ≠ carriageReturn := by
    refine ⟨?_, ?_, ?_, ?_⟩ <;> rintro rfl <;> revert high <;> decide
  have last : b ∉ returns := fun here => other.2.2.2 (ending b here)
  simp [keyed.mem_iff ⟨other.1, other.2.1⟩, valued.mem_iff ⟨other.1, other.2.1⟩, other.2.2.1, last]

theorem mem_name_of_high {name name' : Bytes}
    (same : (chars name).map Char.toLower = (chars name').map Char.toLower) {b : UInt8}
    (high : 0x80 ≤ b) (here : b ∈ name) : b ∈ name' := by
  have number : 128 ≤ b.toNat := UInt8.le_iff_toNat_le.mp high
  apply mem_chars_iff.mp
  apply mem_of_map_toLower_eq same (mem_chars_iff.mpr here)
  · rw [toNat_char]
    omega
  · rw [toNat_char]
    omega

/-- Both lines are one header, or are at fault in the same way. -/
theorem Respelled.readLine_eq (h : Respelled line line') : readLine line = readLine line' := by
  obtain ⟨whole, known, same, keyed, keyed', valued, valued', ending, ending'⟩ := h
  rename_i name name' key key' core value value' returns returns'
  have ascii : IsAscii (key ++ colon :: (value ++ returns)) ↔
      IsAscii (key' ++ colon :: (value' ++ returns')) := by
    rw [isAscii_iff, isAscii_iff]
    refine forall_congr' fun b => imp_congr_right fun high => not_congr ?_
    rw [mem_respelled_iff keyed valued ending high, mem_respelled_iff keyed' valued' ending' high]
    exact or_congr_left ⟨mem_name_of_high same.symm high, mem_name_of_high same high⟩
  by_cases plain : IsAscii (key ++ colon :: (value ++ returns))
  · have colonless : ':' ∉ chars name := by
      rcases known with named | named
      · exact named.not_mem_colon (by decide)
      · exact named.not_mem_colon (by decide)
    have colonless' : ':' ∉ chars name' :=
      fun here => colonless (mem_of_map_toLower_eq same here (by decide) (by decide))
    have first : colon ∉ key := fun here =>
      colonless (mem_chars_iff.mpr ((keyed.mem_iff (by decide)).mp here))
    have first' : colon ∉ key' := fun here =>
      colonless' (mem_chars_iff.mpr ((keyed'.mem_iff (by decide)).mp here))
    rw [readLine_of_colon plain first, readLine_of_colon (ascii.mp plain) first',
      trim_chars_returns ending, trim_chars_returns ending', valued.trim_chars,
      valued'.trim_chars, keyed.trim_chars, keyed'.trim_chars,
      sameName_trim_congr same "Content-Length".toList,
      sameName_trim_congr same "Content-Type".toList]
    -- Only an unknown name would be shown as it is written.
    rcases known with named | named
    · rw [if_pos (sameName_lengthName.mpr named), if_pos (sameName_lengthName.mpr named)]
    · rw [if_pos (sameName_typeName.mpr named), if_pos (sameName_typeName.mpr named)]
  · rw [readLine_of_not_isAscii plain, readLine_of_not_isAscii (mt ascii.mpr plain)]

theorem Respelled.whole (h : Respelled line line') : lineFeed ∉ line ∧ lineFeed ∉ line' := by
  obtain ⟨whole, -, same, keyed, keyed', valued, valued', ending, ending'⟩ := h
  rename_i name name' key key' core value value' returns returns'
  have last : ∀ {returns : Bytes}, (∀ b ∈ returns, b = carriageReturn) → lineFeed ∉ returns := by
    intro returns ending here
    exact absurd (ending _ here) (by decide)
  have named : lineFeed ∉ name := fun here => whole (List.mem_append_left _ here)
  have named' : lineFeed ∉ name' := fun here => named (mem_chars_iff.mp
    (mem_of_map_toLower_eq same (mem_chars_iff.mpr here) (by decide) (by decide)))
  have held : lineFeed ∉ core := fun here => whole (List.mem_append_right _ here)
  have gaps : lineFeed ≠ 32 ∧ lineFeed ≠ 9 := by decide
  have other : lineFeed ≠ colon := by decide
  constructor
  · simp [keyed.mem_iff gaps, valued.mem_iff gaps, named, held, last ending, other]
  · simp [keyed'.mem_iff gaps, valued'.mem_iff gaps, named', held, last ending', other]

theorem Respelled.nonempty (h : Respelled line line') : ∃ b ∈ line, b ≠ carriageReturn := by
  cases h with
  | mk => exact ⟨colon, by simp, by decide⟩

/-- After lines that say the same, reading goes on in the same way. -/
theorem scanHeader_congr (whole : lineFeed ∉ line) (whole' : lineFeed ∉ line')
    (nonempty : ∃ b ∈ line, b ≠ carriageReturn) (same : readLine line = readLine line')
    {rest rest' : Bytes} (others : ∀ length, scanHeader [] length rest = scanHeader [] length rest')
    (length : Option Nat) : scanHeader [] length (line ++ lineFeed :: rest) =
      scanHeader [] length (line' ++ lineFeed :: rest') := by
  rw [scanHeader_feed whole, scanHeader_feed whole', ← same]
  rcases meant : readLine line with f | _ | n | _
  · rfl
  · obtain ⟨b, hb, other⟩ := nonempty
    cases (readLine_eq_iff whole).mp meant with
    | last empty => exact absurd (empty b hb) other
  · exact others _
  · exact others _

theorem Alike.scanHeader_eq (h : Alike lines lines') (after : Bytes) (length : Option Nat) :
    scanHeader [] length (text lines ++ after) = scanHeader [] length (text lines' ++ after) := by
  induction h generalizing length with
  | nil => rfl
  | same whole nonempty _ ih =>
    rw [text_cons_append, text_cons_append]
    exact scanHeader_congr whole whole nonempty rfl ih length
  | respelled first _ ih =>
    rw [text_cons_append, text_cons_append]
    exact scanHeader_congr first.whole.1 first.whole.2 first.nonempty first.readLine_eq ih length
  | inserted idle _ ih =>
    rw [text_cons_append, idle.scanHeader_eq]
    exact ih length
  | removed idle _ ih =>
    rw [text_cons_append, idle.scanHeader_eq]
    exact ih length

/-- A sequence of bytes starts with what the grammar says it does: the first line that is no
header decides, the last stated length counts, and the rest of the sequence is left as it is.
Headers that carry nothing of use, the case of names, the spaces and tabs around names and values,
and the carriage returns at the end of a header change nothing. -/
theorem scan_by_grammar :
    (∀ bytes r, scan bytes = r ↔ Reads bytes r) ∧
      ∀ lines lines', Alike lines lines' →
        ∀ after, scan (text lines ++ after) = scan (text lines' ++ after) :=
  ⟨fun _ _ => scan_eq_iff, fun _ _ alike after => alike.scanHeader_eq after none⟩

/-- A frame in two spellings, one of them with a header more, and the byte behind it. -/
theorem scan_by_grammar_respelled :
    let plain := [Utf8.encode "Content-Length: 2\r"]
    let other := [Utf8.encode "content-type:\r", Utf8.encode "\tCONTENT-length :2 "]
    let after := Utf8.encode "\r\n\x7b\x7d!"
    Alike plain other ∧ scan (text plain ++ after) = scan (text other ++ after) ∧
      scan (text other ++ after) = .frame (Utf8.encode "\x7b\x7d") (Utf8.encode "!") := by
  intro plain other after
  have idle : IsHeader (Utf8.encode "content-type:\r") .ignored :=
    ⟨by decide, (readLine_eq_iff (by decide)).mp (by decide), nofun⟩
  have first : Respelled (Utf8.encode "Content-Length: 2\r") (Utf8.encode "\tCONTENT-length :2 ") :=
    @Respelled.mk (Utf8.encode "Content-Length") (Utf8.encode "CONTENT-length")
      (Utf8.encode "Content-Length") (Utf8.encode "\tCONTENT-length ") (Utf8.encode "2")
      (Utf8.encode " 2") (Utf8.encode "2 ") [carriageReturn] [] (by decide)
      (.inl (sameName_lengthName.mp (by decide))) (by decide)
      ⟨[], [], by decide, by simp, by simp⟩ ⟨[9], [32], by decide, by simp, by simp⟩
      ⟨[32], [], by decide, by simp, by simp⟩ ⟨[], [32], by decide, by simp, by simp⟩
      (by simp) (by simp)
  have alike : Alike plain other := .inserted idle (.respelled first .nil)
  exact ⟨alike, scan_by_grammar.2 plain other alike after, by decide⟩

end LanguageClient.Frame
