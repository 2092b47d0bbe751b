import LanguageClient.Proofs.Number.Digits
import LanguageClient.Proofs.Text.Utf8
import LanguageClient.Wire.Frame
import Mathlib.Algebra.Order.Ring.Int
import Mathlib.Data.List.TakeWhile

/-!
# Frames are read back

The header block that is written is one line with the length of the body and an empty
line.  Scanning a frame gives its body and leaves what follows it untouched, whatever bytes
the body has and whatever follows.
-/

set_option autoImplicit false

namespace LanguageClient.Frame

open LanguageClient.Number

/-! ## The header line -/

theorem isBlank_of_isDigit {c : Char} (h : isDigit c = true) : Text.isBlank c = false := by
  have bounds := (isDigit_iff c).mp h
  have table : ∀ n < 58, 48 ≤ n → Text.isBlank (Char.ofNat n) = false := by decide
  rw [← Char.ofNat_toNat c]
  exact table c.toNat (by omega) bounds.1

theorem dropWhile_eq_self_of_all {p : Char → Bool} {cs : List Char}
    (h : ∀ c ∈ cs, p c = false) : cs.dropWhile p = cs := by
  cases cs with
  | nil => rfl
  | cons c cs => simp [h c List.mem_cons_self]

/-- Digits after one blank are trimmed to the digits. -/
theorem trim_blank_natText (n : Nat) : Text.trim (' ' :: natText n) = natText n := by
  have plain : ∀ c ∈ natText n, Text.isBlank c = false :=
    fun c hc => isBlank_of_isDigit (isDigit_of_mem_natText hc)
  have front : (' ' :: natText n).dropWhile Text.isBlank = natText n := by
    rw [List.dropWhile_cons_of_pos (by decide), dropWhile_eq_self_of_all plain]
  have back : (natText n).reverse.dropWhile Text.isBlank = (natText n).reverse :=
    dropWhile_eq_self_of_all fun c hc => plain c (List.mem_reverse.mp hc)
  rw [Text.trim, Text.trimBoth, front, back, List.reverse_reverse]

/-- A length that fits 64 bits is read back from its digits. -/
theorem lengthValue?_natText {n : Nat} (h : n < 2 ^ 64) : lengthValue? (natText n) = some n := by
  have noSign : ∀ rest, natText n ≠ '+' :: rest := by
    intro rest hn
    have digit : isDigit '+' = true := isDigit_of_mem_natText (hn ▸ List.mem_cons_self)
    exact absurd digit (by decide)
  unfold lengthValue?
  split
  · rename_i rest hn
    exact absurd hn (noSign rest)
  · dsimp only
    rw [ofDigits?_natText]
    exact Option.filter_some_pos (decide_eq_true h)

/-- The name of the header with a length. -/
def lengthName : List Char := "Content-Length".toList

/-- The characters of the header line with a length, without the line ending. -/
def lengthHeader (n : Nat) : List Char := lengthName ++ ':' :: ' ' :: natText n

theorem ascii_lengthName {c : Char} (h : c ∈ lengthName) : 32 ≤ c.toNat ∧ c.toNat < 0x80 := by
  have all : lengthName.all (fun c => 32 ≤ c.toNat && c.toNat < 0x80) = true := by decide
  simpa using List.all_eq_true.mp all c h

theorem ascii_lengthHeader {n : Nat} {c : Char} (h : c ∈ lengthHeader n) :
    32 ≤ c.toNat ∧ c.toNat < 0x80 := by
  simp only [lengthHeader, List.mem_append, List.mem_cons] at h
  rcases h with name | rfl | rfl | digit
  · exact ascii_lengthName name
  · decide
  · decide
  · have bounds := (isDigit_iff c).mp (isDigit_of_mem_natText digit)
    omega

/-- A line of characters from the space on keeps them when its ending is cut off. -/
theorem trimEnd_ending {cs : List Char} (h : ∀ c ∈ cs, 32 ≤ c.toNat) :
    Text.trimEnd (fun c => c = '\r' || c = '\n') (cs ++ ['\r']) = cs := by
  have kept : ∀ c ∈ cs.reverse, (decide (c = '\r') || decide (c = '\n')) = false := by
    intro c hc
    have := h c (List.mem_reverse.mp hc)
    rw [Bool.or_eq_false_iff, decide_eq_false_iff_not, decide_eq_false_iff_not]
    constructor <;> rintro rfl <;> exact absurd this (by decide)
  rw [Text.trimEnd, List.reverse_append, List.reverse_singleton, List.singleton_append,
    List.dropWhile_cons_of_pos (by decide), dropWhile_eq_self_of_all kept, List.reverse_reverse]

/-- The header splits at the colon into its name and what the digits say. -/
theorem split_lengthHeader (n : Nat) :
    (lengthHeader n).takeWhile (· ≠ ':') = lengthName ∧
      (lengthHeader n).dropWhile (· ≠ ':') = ':' :: ' ' :: natText n := by
  have all : lengthName.all (· ≠ ':') = true := by decide
  have name := List.all_eq_true.mp all
  constructor
  · rw [lengthHeader, List.takeWhile_append_of_pos name, List.takeWhile_cons_of_neg (by decide),
      List.append_nil]
  · rw [lengthHeader, List.dropWhile_append_of_pos name, List.dropWhile_cons_of_neg (by decide)]

/-- The bytes of the header line with a length, without the line feed. -/
def lengthLine (n : Nat) : Bytes :=
  (lengthHeader n).map (fun c => UInt8.ofNat c.toNat) ++ [13]

/-- The bytes of the line stand for its characters. -/
theorem map_lengthLine (n : Nat) :
    (lengthLine n).map (fun b => Char.ofNat b.toNat) = lengthHeader n ++ ['\r'] := by
  have back : ∀ c ∈ lengthHeader n, Char.ofNat (UInt8.ofNat c.toNat).toNat = c := by
    intro c hc
    have low := (ascii_lengthHeader hc).2
    rw [Utf8.toNat_ofNat (by omega), Char.ofNat_toNat]
  rw [lengthLine, List.map_append, List.map_map]
  congr 1
  exact (List.map_congr_left back).trans (List.map_id' _)

/-- The bytes of the line are those of printable characters and the carriage return. -/
theorem mem_lengthLine {n : Nat} {b : UInt8} (h : b ∈ lengthLine n) : b < 0x80 ∧ b ≠ 10 := by
  rcases List.mem_append.mp h with inside | last
  · obtain ⟨c, hc, rfl⟩ := List.mem_map.mp inside
    have bounds := ascii_lengthHeader hc
    have value := Utf8.toNat_ofNat (n := c.toNat) (by omega)
    constructor
    · rw [UInt8.lt_iff_toNat_lt, value]
      exact bounds.2
    · intro feed
      rw [feed] at value
      have ten : c.toNat = 10 := value.symm
      omega
  · rw [List.mem_singleton.mp last]
    decide

/-- The line with a length says the length. -/
theorem readLine_lengthLine {n : Nat} (h : n < 2 ^ 64) :
    readLine (lengthLine n) = .ok (.length n) := by
  have ascii : ¬ (lengthLine n).any (0x80 ≤ ·) = true := by
    rw [List.any_eq_true]
    rintro ⟨b, hb, high⟩
    exact absurd (mem_lengthLine hb).1 (UInt8.not_lt.mpr (of_decide_eq_true high))
  have nonempty : ¬ (lengthHeader n).isEmpty = true := by simp [lengthHeader]
  have name : sameName (Text.trim lengthName) "Content-Length".toList = true := by decide
  unfold readLine
  rw [if_neg ascii, map_lengthLine, trimEnd_ending fun c hc => (ascii_lengthHeader hc).1]
  simp only [if_neg nonempty, split_lengthHeader, name, if_true, trim_blank_natText,
    lengthValue?_natText h]

theorem readLine_empty : readLine [13] = .ok .last := by decide

/-! ## The frame -/

/-- A frame is the line with the length, an empty line and the body. -/
theorem encode_eq (body : Bytes) :
    encode body = lengthLine body.length ++ 10 :: 13 :: 10 :: body := by
  have plain : "Content-Length: ".toList.all (fun c => c.toNat < 0x80) = true := by decide
  have name : Utf8.encode "Content-Length: " =
      (lengthName ++ [':', ' ']).map fun c => UInt8.ofNat c.toNat :=
    Utf8.encode_ascii fun c hc => of_decide_eq_true (List.all_eq_true.mp plain c hc)
  have digits : Utf8.encode (String.ofList (natText body.length)) =
      (natText body.length).map fun c => UInt8.ofNat c.toNat := by
    rw [Utf8.encode_ascii, String.toList_ofList]
    intro c hc
    have bounds := (isDigit_iff c).mp (isDigit_of_mem_natText (by simpa using hc))
    omega
  simp only [encode, lengthLine, lengthHeader, name, digits, List.map_append, List.map_cons,
    List.map_nil, List.append_assoc, List.cons_append, List.nil_append]

/-- Bytes up to a line feed are gathered as a line. -/
theorem scanHeader_line {bytes : Bytes} (h : ∀ b ∈ bytes, b ≠ 10) (line : Bytes)
    (length : Option Nat) (rest : Bytes) :
    scanHeader line length (bytes ++ 10 :: rest) =
      scanHeader (bytes.reverse ++ line) length (10 :: rest) := by
  induction bytes generalizing line with
  | nil => rfl
  | cons b bytes ih =>
    rw [List.cons_append, scanHeader, if_neg (h b List.mem_cons_self),
      ih fun c hc => h c (List.mem_cons_of_mem b hc)]
    simp

/-- A frame is read back, whatever follows it. -/
theorem scan_encode_append {body : Bytes} (h : body.length ≤ maxBody) (rest : Bytes) :
    scan (encode body ++ rest) = .frame body rest := by
  have small : body.length < 2 ^ 64 := Nat.lt_of_le_of_lt h (by decide)
  have empty : ∀ b ∈ ([13] : Bytes), b ≠ 10 := List.forall_mem_singleton.mpr (by decide)
  have whole : encode body ++ rest =
      lengthLine body.length ++ 10 :: ([13] ++ 10 :: (body ++ rest)) := by
    simp [encode_eq]
  rw [scan, whole, scanHeader_line (fun b hb => (mem_lengthLine hb).2), scanHeader]
  simp only [if_true, List.append_nil, List.reverse_reverse, readLine_lengthLine small]
  rw [scanHeader_line empty, scanHeader]
  simp only [if_true, List.reverse_singleton, List.append_nil, readLine_empty, scanBody,
    Nat.not_lt.mpr h, if_false, List.length_append]
  rw [if_neg (by omega), List.take_left, List.drop_left]

end LanguageClient.Frame
