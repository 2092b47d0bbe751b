import LanguageClient.Proofs.Text.Trimming
import LanguageClient.Proofs.Wire.Framing

/-!
# Header lines

What a header line says can be told from its bytes without reading it (`Means`): it ends the
block, it is one of the two known headers, or it is at fault in one of four ways.  Reading a
line finds what it says, and every line says something (`readLine_eq_iff`).
-/

set_option autoImplicit false

namespace LanguageClient.Frame

open LanguageClient.Number

/-- The byte that ends a line. -/
abbrev lineFeed : UInt8 := 10

/-- The byte that may stand in front of a line feed. -/
abbrev carriageReturn : UInt8 := 13

/-- The byte between the name of a header and its value. -/
abbrev colon : UInt8 := 58

/-- Each byte as the character of its number. -/
def chars (bytes : Bytes) : List Char := bytes.map fun b => Char.ofNat b.toNat

/-- Whether every byte is a character of its own. -/
def IsAscii (bytes : Bytes) : Prop := ∀ b ∈ bytes, b < 0x80

variable {line key value front returns : Bytes} {b : UInt8} {c : Char} {n : Nat}

theorem toNat_char (b : UInt8) : (Char.ofNat b.toNat).toNat = b.toNat := by
  have small : b.toNat < 256 := b.toNat_lt
  have valid : b.toNat.isValidChar := .inl (by omega)
  rw [Char.ofNat, dif_pos valid]
  rfl

theorem char_inj {a : UInt8} (h : Char.ofNat a.toNat = Char.ofNat b.toNat) : a = b := by
  have numbers := congrArg Char.toNat h
  rw [toNat_char, toNat_char] at numbers
  exact UInt8.toNat_inj.mp numbers

theorem chars_append (xs ys : Bytes) : chars (xs ++ ys) = chars xs ++ chars ys :=
  List.map_append

theorem chars_cons (b : UInt8) (bytes : Bytes) :
    chars (b :: bytes) = Char.ofNat b.toNat :: chars bytes := rfl

theorem mem_chars_iff {bytes : Bytes} : Char.ofNat b.toNat ∈ chars bytes ↔ b ∈ bytes := by
  constructor
  · intro h
    obtain ⟨a, ha, same⟩ := List.mem_map.mp h
    exact char_inj same ▸ ha
  · exact fun h => List.mem_map_of_mem h

/-! ## Names -/

/-- The name of the header that carries nothing of use. -/
def typeName : List Char := "Content-Type".toList

/-- Whether a text is a name, up to the case of ASCII letters and blanks around it. -/
def Spells (text name : List Char) : Prop :=
  ∃ left word right, text = left ++ word ++ right ∧ (∀ c ∈ left, Text.isBlank c = true) ∧
    (∀ c ∈ right, Text.isBlank c = true) ∧ word.map Char.toLower = name.map Char.toLower

theorem toLower_of_not_capital {c : Char} (other : ¬ (65 ≤ c.toNat ∧ c.toNat ≤ 90)) :
    c.toLower = c :=
  dif_neg other

theorem isBlank_toLower (c : Char) : Text.isBlank c.toLower = Text.isBlank c := by
  have table : ∀ n < 91, 65 ≤ n →
      Text.isBlank (Char.ofNat n).toLower = Text.isBlank (Char.ofNat n) := by decide
  by_cases capital : 65 ≤ c.toNat ∧ c.toNat ≤ 90
  · have same := table c.toNat (by omega) capital.1
    rwa [Char.ofNat_toNat] at same
  · rw [toLower_of_not_capital capital]

/-- A text in another case begins and ends with blanks when the first does. -/
theorem isBlank_of_map_toLower {word name : List Char}
    (same : word.map Char.toLower = name.map Char.toLower) :
    word.head?.map Text.isBlank = name.head?.map Text.isBlank ∧
      word.getLast?.map Text.isBlank = name.getLast?.map Text.isBlank := by
  have blank : Text.isBlank ∘ Char.toLower = Text.isBlank := funext isBlank_toLower
  constructor
  · have first := congrArg (fun cs => cs.head?.map Text.isBlank) same
    simpa [List.head?_map, Option.map_map, blank] using first
  · have last := congrArg (fun cs => cs.getLast?.map Text.isBlank) same
    simpa [List.getLast?_map, Option.map_map, blank] using last

/-- A name without blanks at its ends is found in every spelling. -/
theorem sameName_trim_iff {text name : List Char} (first : name.head?.map Text.isBlank = some false)
    (last : name.getLast?.map Text.isBlank = some false) :
    sameName (Text.trim text) name = true ↔ Spells text name := by
  rw [sameName, beq_iff_eq]
  constructor
  · intro same
    obtain ⟨left, right, split, front, back⟩ := Text.exists_padding Text.isBlank text
    exact ⟨left, Text.trim text, right, split, front, back, same⟩
  · rintro ⟨left, word, right, rfl, front, back, same⟩
    obtain ⟨wordFirst, wordLast⟩ := isBlank_of_map_toLower same
    have bare : Text.trim word = word := by
      apply Text.trimBoth_eq_self
      · intro c hc
        have begun := wordFirst.trans first
        rw [Option.mem_def.mp hc] at begun
        exact Option.some.inj begun
      · intro c hc
        have ended := wordLast.trans last
        rw [Option.mem_def.mp hc] at ended
        exact Option.some.inj ended
    rw [Text.trim, Text.trimBoth_padded front back, ← Text.trim, bare, same]

theorem sameName_lengthName {text : List Char} :
    sameName (Text.trim text) "Content-Length".toList = true ↔ Spells text lengthName :=
  sameName_trim_iff (by decide) (by decide)

theorem sameName_typeName {text : List Char} :
    sameName (Text.trim text) "Content-Type".toList = true ↔ Spells text typeName :=
  sameName_trim_iff (by decide) (by decide)

/-- The two names are not taken for each other. -/
theorem Spells.not_typeName {text : List Char} (named : Spells text lengthName) :
    ¬ Spells text typeName := by
  intro other
  have length := sameName_lengthName.mpr named
  have type := sameName_typeName.mpr other
  rw [sameName, beq_iff_eq] at length type
  exact absurd (length.symm.trans type) (by decide)

/-! ## Lengths -/

/-- Whether a text states a number: it is an optional plus sign and decimal digits of a number
that fits 64 bits, with blanks around. -/
def States (text : List Char) (n : Nat) : Prop :=
  ∃ left sign digits right, text = left ++ (sign ++ digits) ++ right ∧
    (∀ c ∈ left, Text.isBlank c = true) ∧ (∀ c ∈ right, Text.isBlank c = true) ∧
    (sign = [] ∨ sign = ['+']) ∧ digits ≠ [] ∧ (∀ c ∈ digits, isDigit c = true) ∧
    natOfDigits digits = n ∧ n < 2 ^ 64

theorem isDigit_of_digitValue? {v : Nat} (h : digitValue? 10 c = some v) : isDigit c = true := by
  rw [isDigit_iff]
  simp only [digitValue?, Option.filter_eq_some_iff, decide_eq_true_eq] at h
  obtain ⟨value, small⟩ := h
  split at value
  · assumption
  · split at value
    · obtain rfl := Option.some.inj value
      omega
    · split at value
      · obtain rfl := Option.some.inj value
        omega
      · cases value

/-- Only strings of digits have a value. -/
theorem ofDigits?_ten_eq_some_iff {cs : List Char} : ofDigits? 10 cs = some n ↔
    cs ≠ [] ∧ (∀ c ∈ cs, isDigit c = true) ∧ natOfDigits cs = n := by
  constructor
  · intro h
    have digits : ∀ (ds : List Char) (k : Nat),
        (ds.foldlM (fun n c => (digitValue? 10 c).map (n * 10 + ·)) k).isSome →
          ∀ c ∈ ds, isDigit c = true := by
      intro ds
      induction ds with
      | nil => exact fun _ _ => nofun
      | cons d ds ih =>
        intro k read c hc
        rw [List.foldlM_cons] at read
        cases value : digitValue? 10 d with
        | none => simp [value] at read
        | some v =>
          rcases List.mem_cons.mp hc with rfl | later
          · exact isDigit_of_digitValue? value
          · exact ih _ (by simpa [value] using read) c later
    have nonempty : cs ≠ [] := by
      rintro rfl
      cases h
    have all : ∀ c ∈ cs, isDigit c = true := by
      rw [ofDigits?, if_neg (by simpa using nonempty)] at h
      exact digits cs 0 (by rw [h]; rfl)
    rw [ofDigits?_eq_natOfDigits nonempty all] at h
    exact ⟨nonempty, all, Option.some.inj h⟩
  · rintro ⟨nonempty, all, rfl⟩
    exact ofDigits?_eq_natOfDigits nonempty all

theorem lengthValue?_eq_some_iff {cs : List Char} : lengthValue? cs = some n ↔
    ∃ sign digits, cs = sign ++ digits ∧ (sign = [] ∨ sign = ['+']) ∧ digits ≠ [] ∧
      (∀ c ∈ digits, isDigit c = true) ∧ natOfDigits digits = n ∧ n < 2 ^ 64 := by
  have plus : isDigit '+' = false := by decide
  unfold lengthValue?
  split
  case h_1 rest =>
    simp only [Option.filter_eq_some_iff, ofDigits?_ten_eq_some_iff, decide_eq_true_eq]
    constructor
    · rintro ⟨⟨nonempty, all, value⟩, small⟩
      exact ⟨['+'], rest, rfl, .inr rfl, nonempty, all, value, small⟩
    · rintro ⟨sign, digits, split, rfl | rfl, nonempty, all, value, small⟩
      · obtain rfl : '+' :: rest = digits := split
        have digit := all '+' List.mem_cons_self
        rw [plus] at digit
        cases digit
      · obtain rfl : rest = digits := (List.cons.inj split).2
        exact ⟨⟨nonempty, all, value⟩, small⟩
  case h_2 unsigned =>
    simp only [Option.filter_eq_some_iff, ofDigits?_ten_eq_some_iff, decide_eq_true_eq]
    constructor
    · rintro ⟨⟨nonempty, all, value⟩, small⟩
      exact ⟨[], cs, rfl, .inl rfl, nonempty, all, value, small⟩
    · rintro ⟨sign, digits, rfl, rfl | rfl, nonempty, all, value, small⟩
      · exact ⟨⟨nonempty, all, value⟩, small⟩
      · exact absurd rfl (unsigned digits)

/-- A length is read from a value that states it. -/
theorem lengthValue?_trim_iff {text : List Char} :
    lengthValue? (Text.trim text) = some n ↔ States text n := by
  constructor
  · intro read
    obtain ⟨sign, digits, whole, signed, nonempty, all, value, small⟩ :=
      lengthValue?_eq_some_iff.mp read
    obtain ⟨left, right, split, front, back⟩ := Text.exists_padding Text.isBlank text
    rw [← Text.trim, whole] at split
    exact ⟨left, sign, digits, right, split, front, back, signed, nonempty, all, value, small⟩
  · rintro ⟨left, sign, digits, right, rfl, front, back, signed, nonempty, all, value, small⟩
    have visible : ∀ c ∈ sign ++ digits, Text.isBlank c = false := by
      intro c hc
      rcases List.mem_append.mp hc with inSign | inDigits
      · rcases signed with rfl | rfl
        · cases inSign
        · obtain rfl := List.mem_singleton.mp inSign
          decide
      · exact isBlank_of_isDigit (all c inDigits)
    have bare : Text.trim (sign ++ digits) = sign ++ digits :=
      Text.trimBoth_eq_self (fun c hc => visible c (List.mem_of_mem_head? hc))
        (fun c hc => visible c (List.mem_of_mem_getLast? hc))
    rw [Text.trim, Text.trimBoth_padded front back, ← Text.trim, bare]
    exact lengthValue?_eq_some_iff.mpr ⟨sign, digits, rfl, signed, nonempty, all, value, small⟩

/-! ## Lines -/

/-- What a line says, by the bytes in front of its line feed. -/
inductive Means : Bytes → Except Fault Header → Prop
  | notAscii {line : Bytes} {b : UInt8} (here : b ∈ line) (high : 0x80 ≤ b) :
      Means line (.error .notAscii)
  /-- The empty line has nothing but carriage returns. -/
  | last {line : Bytes} (returns : ∀ b ∈ line, b = carriageReturn) : Means line (.ok .last)
  /-- The carriage returns at the end are no part of the header. -/
  | noColon {front returns : Bytes} {b : UInt8} (ascii : IsAscii (front ++ b :: returns))
      (none : colon ∉ front ++ [b]) (stays : b ≠ carriageReturn)
      (ending : ∀ a ∈ returns, a = carriageReturn) :
      Means (front ++ b :: returns) (.error (.noColon (String.ofList (chars (front ++ [b])))))
  | length {key value : Bytes} {n : Nat} (ascii : IsAscii (key ++ colon :: value))
      (first : colon ∉ key) (named : Spells (chars key) lengthName)
      (number : States (chars value) n) : Means (key ++ colon :: value) (.ok (.length n))
  | badLength {key value : Bytes} (ascii : IsAscii (key ++ colon :: value))
      (first : colon ∉ key) (named : Spells (chars key) lengthName)
      (none : ∀ n, ¬ States (chars value) n) :
      Means (key ++ colon :: value)
        (.error (.badLength (String.ofList (Text.trim (chars value)))))
  | ignored {key value : Bytes} (ascii : IsAscii (key ++ colon :: value))
      (first : colon ∉ key) (named : Spells (chars key) typeName) :
      Means (key ++ colon :: value) (.ok .ignored)
  | unknownHeader {key value : Bytes} (ascii : IsAscii (key ++ colon :: value))
      (first : colon ∉ key) (noLength : ¬ Spells (chars key) lengthName)
      (noType : ¬ Spells (chars key) typeName) :
      Means (key ++ colon :: value)
        (.error (.unknownHeader (String.ofList (Text.trim (chars key)))))

theorem not_any_of_isAscii (ascii : IsAscii line) : ¬ line.any (0x80 ≤ ·) = true := by
  rw [List.any_eq_true]
  rintro ⟨b, hb, high⟩
  exact UInt8.not_lt.mpr (of_decide_eq_true high) (ascii b hb)

/-- The class of characters that are cut off at the end of a line. -/
def isEnding (c : Char) : Bool := c = '\r' || c = '\n'

/-- A line of ASCII bytes is read by what is left of it without its ending. -/
theorem readLine_of_isAscii (ascii : IsAscii line) : readLine line =
    if (Text.trimEnd isEnding (chars line)).isEmpty then .ok .last
    else
      match (Text.trimEnd isEnding (chars line)).dropWhile (· ≠ ':') with
      | [] => .error (.noColon (String.ofList (Text.trimEnd isEnding (chars line))))
      | _ :: value =>
        let key := Text.trim ((Text.trimEnd isEnding (chars line)).takeWhile (· ≠ ':'))
        if sameName key "Content-Length".toList then
          match lengthValue? (Text.trim value) with
          | some n => .ok (.length n)
          | none => .error (.badLength (String.ofList (Text.trim value)))
        else if sameName key "Content-Type".toList then .ok .ignored
        else .error (.unknownHeader (String.ofList key)) := by
  rw [readLine, if_neg (not_any_of_isAscii ascii)]
  rfl

/-- A line with a colon is read by what is in front of the first one and by what is behind. -/
theorem readLine_of_colon (ascii : IsAscii (key ++ colon :: value)) (first : colon ∉ key) :
    readLine (key ++ colon :: value) =
      if sameName (Text.trim (chars key)) "Content-Length".toList then
        match lengthValue? (Text.trim (chars value)) with
        | some n => .ok (.length n)
        | none => .error (.badLength (String.ofList (Text.trim (chars value))))
      else if sameName (Text.trim (chars key)) "Content-Type".toList then .ok .ignored
      else .error (.unknownHeader (String.ofList (Text.trim (chars key)))) := by
  have whole : Text.trimEnd isEnding (chars (key ++ colon :: value)) =
      chars key ++ ':' :: Text.trimEnd isEnding (chars value) := by
    rw [chars_append, chars_cons]
    exact Text.trimEnd_append_cons (by decide) _ _
  have away : ∀ c ∈ chars key, decide (c ≠ ':') = true := by
    rintro c hc
    apply decide_eq_true
    rintro rfl
    exact first (mem_chars_iff.mp hc)
  have trimmed : Text.trim (Text.trimEnd isEnding (chars value)) = Text.trim (chars value) := by
    apply Text.trimBoth_trimEnd
    intro c ending
    simp only [isEnding, Bool.or_eq_true, decide_eq_true_eq] at ending
    rcases ending with rfl | rfl <;> decide
  have nonempty : ¬ (chars key ++ ':' :: Text.trimEnd isEnding (chars value)).isEmpty = true := by
    simp
  rw [readLine_of_isAscii ascii, whole, if_neg nonempty, List.dropWhile_append_of_pos away,
    List.takeWhile_append_of_pos away, List.dropWhile_cons_of_neg (by decide),
    List.takeWhile_cons_of_neg (by decide), List.append_nil]
  simp only [trimmed]

theorem isEnding_of_return (returns : ∀ b ∈ line, b = carriageReturn) :
    ∀ c ∈ chars line, isEnding c = true := by
  intro c hc
  obtain ⟨b, hb, rfl⟩ := List.mem_map.mp hc
  rw [returns b hb]
  decide

/-- A line in which a byte stays has one behind which everything is cut off. -/
theorem exists_last_byte (stays : ∃ b ∈ line, b ≠ carriageReturn) :
    ∃ front b returns, line = front ++ b :: returns ∧ b ≠ carriageReturn ∧
      ∀ a ∈ returns, a = carriageReturn := by
  induction line with
  | nil =>
    obtain ⟨b, hb, -⟩ := stays
    cases hb
  | cons a line ih =>
    by_cases later : ∃ b ∈ line, b ≠ carriageReturn
    · obtain ⟨front, b, returns, rfl, other, ending⟩ := ih later
      exact ⟨a :: front, b, returns, rfl, other, ending⟩
    · have ending : ∀ b ∈ line, b = carriageReturn :=
        fun b hb => Classical.not_not.mp fun other => later ⟨b, hb, other⟩
      obtain ⟨b, hb, other⟩ := stays
      rcases List.mem_cons.mp hb with rfl | inLine
      · exact ⟨[], b, line, rfl, other, ending⟩
      · exact absurd (ending b inLine) other

/-- Every line says something. -/
theorem exists_meaning (line : Bytes) : ∃ r, Means line r := by
  by_cases ascii : IsAscii line
  · by_cases stays : ∃ b ∈ line, b ≠ carriageReturn
    · by_cases split : colon ∈ line
      · obtain ⟨key, value, rfl, first⟩ := List.eq_append_cons_of_mem split
        by_cases length : Spells (chars key) lengthName
        · by_cases number : ∃ n, States (chars value) n
          · obtain ⟨n, number⟩ := number
            exact ⟨_, .length ascii first length number⟩
          · exact ⟨_, .badLength ascii first length fun n states => number ⟨n, states⟩⟩
        · by_cases type : Spells (chars key) typeName
          · exact ⟨_, .ignored ascii first type⟩
          · exact ⟨_, .unknownHeader ascii first length type⟩
      · obtain ⟨front, b, returns, rfl, other, ending⟩ := exists_last_byte stays
        refine ⟨_, .noColon ascii (fun here => split ?_) other ending⟩
        rcases List.mem_append.mp here with inFront | last
        · exact List.mem_append_left _ inFront
        · obtain rfl := List.mem_singleton.mp last
          simp
    · refine ⟨_, .last fun b hb => Classical.not_not.mp fun other => ?_⟩
      exact stays ⟨b, hb, other⟩
  · simp only [IsAscii, not_forall, UInt8.not_lt] at ascii
    obtain ⟨b, here, high⟩ := ascii
    exact ⟨_, .notAscii here high⟩

/-- Reading a line finds what it says. -/
theorem Means.readLine_eq {r : Except Fault Header} (meaning : Means line r)
    (whole : lineFeed ∉ line) : readLine line = r := by
  cases meaning with
  | notAscii here high =>
    have some : line.any (0x80 ≤ ·) = true := List.any_eq_true.mpr ⟨_, here, decide_eq_true high⟩
    rw [readLine, if_pos some]
  | last returns =>
    have ascii : IsAscii line := by
      intro b hb
      rw [returns b hb]
      decide
    rw [readLine_of_isAscii ascii, Text.trimEnd_eq_nil_iff.mpr (isEnding_of_return returns)]
    rfl
  | @noColon front returns b ascii none stays ending =>
    have kept : isEnding (Char.ofNat b.toNat) = false := by
      have notFeed : b ≠ lineFeed := by
        rintro rfl
        exact whole (by simp)
      simp only [isEnding, Bool.or_eq_false_iff, decide_eq_false_iff_not]
      exact ⟨fun same => stays (char_inj same), fun same => notFeed (char_inj same)⟩
    have text : Text.trimEnd isEnding (chars (front ++ b :: returns)) = chars (front ++ [b]) := by
      rw [chars_append, chars_cons, Text.trimEnd_append_cons kept,
        Text.trimEnd_eq_nil_iff.mpr (isEnding_of_return ending), chars_append]
      rfl
    have away : ∀ c ∈ chars (front ++ [b]), decide (c ≠ ':') = true := by
      rintro c hc
      apply decide_eq_true
      rintro rfl
      exact none (mem_chars_iff.mp hc)
    have nonempty : ¬ (chars (front ++ [b])).isEmpty = true := by simp [chars]
    rw [readLine_of_isAscii ascii, text, if_neg nonempty, List.dropWhile_eq_nil_iff.mpr away]
  | length ascii first named number =>
    rw [readLine_of_colon ascii first, if_pos (sameName_lengthName.mpr named),
      lengthValue?_trim_iff.mpr number]
  | @badLength key value ascii first named none =>
    have nothing : lengthValue? (Text.trim (chars value)) = Option.none :=
      Option.eq_none_iff_forall_ne_some.mpr fun n read => none n (lengthValue?_trim_iff.mp read)
    rw [readLine_of_colon ascii first, if_pos (sameName_lengthName.mpr named), nothing]
  | ignored ascii first named =>
    have other : ¬ Spells (chars _) lengthName := fun length => length.not_typeName named
    rw [readLine_of_colon ascii first, if_neg (mt sameName_lengthName.mp other),
      if_pos (sameName_typeName.mpr named)]
  | unknownHeader ascii first noLength noType =>
    rw [readLine_of_colon ascii first, if_neg (mt sameName_lengthName.mp noLength),
      if_neg (mt sameName_typeName.mp noType)]

/-- A line is read as what it says, and as nothing else. -/
theorem readLine_eq_iff {r : Except Fault Header} (whole : lineFeed ∉ line) :
    readLine line = r ↔ Means line r := by
  refine ⟨?_, fun meaning => meaning.readLine_eq whole⟩
  rintro rfl
  obtain ⟨r, meaning⟩ := exists_meaning line
  rw [meaning.readLine_eq whole]
  exact meaning

end LanguageClient.Frame
