import LanguageClient.Text.Utf8
import Mathlib.Tactic.SplitIfs

/-!
# Reading what was written in UTF-8

The decoder gives back the characters of every text from its bytes, and reads no other bytes.
It suffices to look at one character in front of anything else: its first byte announces the
payload and the bounds of the second byte, and each further byte adds six bits.  Texts have
the order of their bytes.
-/

set_option autoImplicit false

namespace LanguageClient.Utf8

theorem toNat_ofNat {n : Nat} (h : n < 256) : (UInt8.ofNat n).toNat = n := by
  simp [Nat.mod_eq_of_lt h]

/-! ## Single bytes -/

/-- A byte below 128 is a character of its own. -/
theorem start_one {n : Nat} (h : n < 0x80) :
    start (UInt8.ofNat n) = (none, [.char (Char.ofNat n)]) := by
  have value := toNat_ofNat (n := n) (by omega)
  have small : UInt8.ofNat n < 0x80 := by
    rw [UInt8.lt_iff_toNat_lt, value]
    exact h
  rw [start, if_pos small, value]

theorem start_two : ∀ k < 32, 2 ≤ k →
    start (UInt8.ofNat (k + 0xC0)) = (some ⟨1, 0x80, 0xBF, k⟩, []) := by
  decide

/-- The first byte of a character of three bytes; the bounds of the second one leave out
overlong forms and surrogates. -/
theorem start_three : ∀ k < 16,
    start (UInt8.ofNat (k + 0xE0)) =
      (some ⟨2, if k = 0 then 0xA0 else 0x80, if k = 13 then 0x9F else 0xBF, k⟩, []) := by
  decide

theorem start_four : ∀ k < 5,
    start (UInt8.ofNat (k + 0xF0)) =
      (some ⟨3, if k = 0 then 0x90 else 0x80, if k = 4 then 0x8F else 0xBF, k⟩, []) := by
  decide

theorem piecesFrom_cons (state : Option Pending) (b : UInt8) (rest : Bytes) :
    piecesFrom state (b :: rest) = (step state b).2 ++ piecesFrom (step state b).1 rest := by
  cases state <;> rfl

/-- A byte between the bounds adds to a character that misses more bytes. -/
theorem piecesFrom_more {missing : Nat} {low high : UInt8} {k : Nat} (value : Nat)
    (more : 1 < missing) (hk : k < 64) (least : low.toNat ≤ k + 0x80)
    (greatest : k + 0x80 ≤ high.toNat) (rest : Bytes) :
    piecesFrom (some ⟨missing, low, high, value⟩) (UInt8.ofNat (k + 0x80) :: rest) =
      piecesFrom (some ⟨missing - 1, 0x80, 0xBF, value * 64 + k⟩) rest := by
  have byte := toNat_ofNat (n := k + 0x80) (by omega)
  have bounds : low ≤ UInt8.ofNat (k + 0x80) ∧ UInt8.ofNat (k + 0x80) ≤ high := by
    rw [UInt8.le_iff_toNat_le, UInt8.le_iff_toNat_le, byte]
    exact ⟨least, greatest⟩
  rw [piecesFrom_cons]
  simp only [step, if_pos bounds, byte, Nat.add_sub_cancel, if_neg (Nat.not_le.mpr more),
    List.nil_append]

/-- A byte between the bounds completes a character that misses no other. -/
theorem piecesFrom_last {low high : UInt8} {k : Nat} (value : Nat) (hk : k < 64)
    (least : low.toNat ≤ k + 0x80) (greatest : k + 0x80 ≤ high.toNat) (rest : Bytes) :
    piecesFrom (some ⟨1, low, high, value⟩) (UInt8.ofNat (k + 0x80) :: rest) =
      .char (Char.ofNat (value * 64 + k)) :: piecesFrom none rest := by
  have byte := toNat_ofNat (n := k + 0x80) (by omega)
  have bounds : low ≤ UInt8.ofNat (k + 0x80) ∧ UInt8.ofNat (k + 0x80) ≤ high := by
    rw [UInt8.le_iff_toNat_le, UInt8.le_iff_toNat_le, byte]
    exact ⟨least, greatest⟩
  rw [piecesFrom_cons]
  simp only [step, if_pos bounds, byte, Nat.add_sub_cancel, Nat.le_refl, if_true,
    List.singleton_append]

theorem tail_bounds (k : Nat) (hk : k < 64) :
    (0x80 : UInt8).toNat ≤ k + 0x80 ∧ k + 0x80 ≤ (0xBF : UInt8).toNat := by
  constructor
  · show 0x80 ≤ _
    omega
  · show _ ≤ 0xBF
    omega

/-! ## Characters -/

theorem piecesFrom_one {n : Nat} (h : n < 0x80) (rest : Bytes) :
    piecesFrom none (UInt8.ofNat n :: rest) = .char (Char.ofNat n) :: piecesFrom none rest := by
  rw [piecesFrom_cons, step, start_one h]
  rfl

theorem piecesFrom_two {n : Nat} (low : 0x80 ≤ n) (high : n < 0x800) (rest : Bytes) :
    piecesFrom none (UInt8.ofNat (n / 64 % 0x20 + 0xc0) :: UInt8.ofNat (n % 0x40 + 0x80) :: rest) =
      .char (Char.ofNat n) :: piecesFrom none rest := by
  have last := tail_bounds (n % 0x40) (by omega)
  rw [piecesFrom_cons, step, start_two _ (by omega) (by omega), List.nil_append,
    piecesFrom_last _ (by omega) last.1 last.2,
    show n / 64 % 0x20 * 64 + n % 0x40 = n by omega]

theorem piecesFrom_three {n : Nat} (low : 0x800 ≤ n) (high : n < 0x10000)
    (valid : n < 0xD800 ∨ 0xDFFF < n) (rest : Bytes) :
    piecesFrom none (UInt8.ofNat (n / 4096 % 0x10 + 0xe0) ::
        UInt8.ofNat (n / 64 % 0x40 + 0x80) :: UInt8.ofNat (n % 0x40 + 0x80) :: rest) =
      .char (Char.ofNat n) :: piecesFrom none rest := by
  have least : (if n / 4096 % 0x10 = 0 then 0xA0 else 0x80 : UInt8).toNat ≤
      n / 64 % 0x40 + 0x80 := by
    split
    · show 0xA0 ≤ _
      omega
    · show 0x80 ≤ _
      omega
  have greatest : n / 64 % 0x40 + 0x80 ≤
      (if n / 4096 % 0x10 = 13 then 0x9F else 0xBF : UInt8).toNat := by
    split
    · show _ ≤ 0x9F
      omega
    · show _ ≤ 0xBF
      omega
  have last := tail_bounds (n % 0x40) (by omega)
  rw [piecesFrom_cons, step, start_three _ (by omega), List.nil_append,
    piecesFrom_more _ (by decide) (by omega) least greatest,
    piecesFrom_last _ (by omega) last.1 last.2,
    show (n / 4096 % 0x10 * 64 + n / 64 % 0x40) * 64 + n % 0x40 = n by omega]

theorem piecesFrom_four {n : Nat} (low : 0x10000 ≤ n) (high : n < 0x110000) (rest : Bytes) :
    piecesFrom none (UInt8.ofNat (n / 262144 % 0x08 + 0xf0) ::
        UInt8.ofNat (n / 4096 % 0x40 + 0x80) :: UInt8.ofNat (n / 64 % 0x40 + 0x80) ::
        UInt8.ofNat (n % 0x40 + 0x80) :: rest) =
      .char (Char.ofNat n) :: piecesFrom none rest := by
  have least : (if n / 262144 % 0x08 = 0 then 0x90 else 0x80 : UInt8).toNat ≤
      n / 4096 % 0x40 + 0x80 := by
    split
    · show 0x90 ≤ _
      omega
    · show 0x80 ≤ _
      omega
  have greatest : n / 4096 % 0x40 + 0x80 ≤
      (if n / 262144 % 0x08 = 4 then 0x8F else 0xBF : UInt8).toNat := by
    split
    · show _ ≤ 0x8F
      omega
    · show _ ≤ 0xBF
      omega
  have third := tail_bounds (n / 64 % 0x40) (by omega)
  have last := tail_bounds (n % 0x40) (by omega)
  rw [piecesFrom_cons, step, start_four _ (by omega), List.nil_append,
    piecesFrom_more _ (by decide) (by omega) least greatest,
    piecesFrom_more _ (by decide) (by omega) third.1 third.2,
    piecesFrom_last _ (by omega) last.1 last.2,
    show ((n / 262144 % 0x08 * 64 + n / 4096 % 0x40) * 64 + n / 64 % 0x40) * 64 + n % 0x40 = n
      by omega]

/-- The bytes of a character in front of anything else are read as this character. -/
theorem piecesFrom_utf8EncodeChar (c : Char) (rest : Bytes) :
    piecesFrom none (String.utf8EncodeChar c ++ rest) = .char c :: piecesFrom none rest := by
  have valid : c.val.toNat < 0xD800 ∨ 0xDFFF < c.val.toNat ∧ c.val.toNat < 0x110000 := c.valid
  have back : Char.ofNat c.val.toNat = c := Char.ofNat_toNat c
  obtain ⟨n, hn⟩ : ∃ n, c.val.toNat = n := ⟨_, rfl⟩
  rw [hn] at valid back
  subst back
  simp only [String.utf8EncodeChar, hn]
  split
  · exact piecesFrom_one (by omega) rest
  split
  · exact piecesFrom_two (by omega) (by omega) rest
  split
  · exact piecesFrom_three (by omega) (by omega) (by omega) rest
  · exact piecesFrom_four (by omega) (by omega) rest

/-! ## Texts -/

/-- The bytes of characters are read as these characters. -/
theorem pieces_flatMap_utf8EncodeChar (cs : List Char) :
    pieces (cs.flatMap String.utf8EncodeChar) = cs.map .char := by
  unfold pieces
  induction cs with
  | nil => rfl
  | cons c cs ih => rw [List.flatMap_cons, piecesFrom_utf8EncodeChar, ih, List.map_cons]

/-- A text is read back from its bytes. -/
theorem chars?_encode (s : String) : chars? (encode s) = some s.toList := by
  rw [chars?, encode, pieces_flatMap_utf8EncodeChar]
  induction s.toList with
  | nil => rfl
  | cons c cs ih => simp [ih, Piece.char?]

/-- Characters below 128 are one byte each. -/
theorem encode_ascii {s : String} (h : ∀ c ∈ s.toList, c.toNat < 0x80) :
    encode s = s.toList.map fun c => UInt8.ofNat c.toNat := by
  have single : ∀ c : Char, c.toNat < 0x80 →
      String.utf8EncodeChar c = [UInt8.ofNat c.toNat] := by
    intro c hc
    have value : c.val.toNat ≤ 127 := Nat.le_of_lt_succ hc
    simp only [String.utf8EncodeChar, if_pos value]
    rfl
  unfold encode
  generalize s.toList = cs at h ⊢
  induction cs with
  | nil => rfl
  | cons c cs ih =>
    rw [List.flatMap_cons, single c (h c List.mem_cons_self),
      ih fun d hd => h d (List.mem_cons_of_mem c hd)]
    rfl

/-! ## Nothing else is read -/

/-- The first byte of a character announces one, two, three or four bytes; any other is broken. -/
theorem start_cases (b : UInt8) :
    (∃ n < 0x80, b = UInt8.ofNat n) ∨ (∃ k < 32, 2 ≤ k ∧ b = UInt8.ofNat (k + 0xC0)) ∨
      (∃ k < 16, b = UInt8.ofNat (k + 0xE0)) ∨ (∃ k < 5, b = UInt8.ofNat (k + 0xF0)) ∨
      start b = (none, [.broken]) := by
  have other : ∀ n < 256, (0x80 ≤ n ∧ n < 0xC2) ∨ 0xF5 ≤ n →
      start (UInt8.ofNat n) = (none, [.broken]) := by decide +kernel
  have small : b.toNat < 256 := b.toNat_lt
  obtain ⟨n, hn⟩ : ∃ n, b.toNat = n := ⟨_, rfl⟩
  obtain rfl : b = UInt8.ofNat n := by rw [← hn, UInt8.ofNat_toNat]
  rw [toNat_ofNat (hn ▸ small)] at small
  by_cases one : n < 0x80
  · exact .inl ⟨n, one, rfl⟩
  by_cases two : 0xC2 ≤ n ∧ n < 0xE0
  · exact .inr (.inl ⟨n - 0xC0, by omega, by omega, by rw [Nat.sub_add_cancel (by omega)]⟩)
  by_cases three : 0xE0 ≤ n ∧ n < 0xF0
  · exact .inr (.inr (.inl ⟨n - 0xE0, by omega, by rw [Nat.sub_add_cancel (by omega)]⟩))
  by_cases four : 0xF0 ≤ n ∧ n < 0xF5
  · exact .inr (.inr (.inr (.inl ⟨n - 0xF0, by omega, by rw [Nat.sub_add_cancel (by omega)]⟩)))
  · exact .inr (.inr (.inr (.inr (other n small (by omega)))))

/-- A character that is incomplete goes on with a byte between its bounds. -/
theorem exists_next {missing value : Nat} {low high : UInt8} {bytes : Bytes} {cs : List Char}
    (least : 0x80 ≤ low.toNat) (greatest : high.toNat ≤ 0xBF)
    (h : (piecesFrom (some ⟨missing, low, high, value⟩) bytes).mapM Piece.char? = some cs) :
    ∃ k rest, k < 64 ∧ low.toNat ≤ k + 0x80 ∧ k + 0x80 ≤ high.toNat ∧
      bytes = UInt8.ofNat (k + 0x80) :: rest := by
  cases bytes with
  | nil => cases h
  | cons b rest =>
    by_cases inside : low ≤ b ∧ b ≤ high
    · rw [UInt8.le_iff_toNat_le, UInt8.le_iff_toNat_le] at inside
      refine ⟨b.toNat - 0x80, rest, by omega, by omega, by omega, ?_⟩
      rw [Nat.sub_add_cancel (by omega), UInt8.ofNat_toNat]
    · rw [piecesFrom_cons] at h
      simp only [step, if_neg inside] at h
      cases h

/-- Whether bytes that are read as characters begin with the bytes of the first of them. -/
def Begins (bytes : Bytes) (cs : List Char) : Prop :=
  ∃ c after others, bytes = String.utf8EncodeChar c ++ after ∧ cs = c :: others ∧
    (piecesFrom none after).mapM Piece.char? = some others

theorem begins_of_char {bytes : Bytes} {cs : List Char} (c : Char) (after : Bytes)
    (split : bytes = String.utf8EncodeChar c ++ after)
    (h : (piecesFrom none bytes).mapM Piece.char? = some cs) : Begins bytes cs := by
  rw [split, piecesFrom_utf8EncodeChar] at h
  simp only [List.mapM_cons, Piece.char?, Option.bind_eq_bind, Option.bind_some, Option.pure_def,
    Option.bind_eq_some_iff, Option.some.injEq] at h
  obtain ⟨others, more, rfl⟩ := h
  exact ⟨c, after, others, split, rfl, more⟩

theorem toNat_val_ofNat {n : Nat} (valid : n < 0xD800 ∨ 0xDFFF < n ∧ n < 0x110000) :
    (Char.ofNat n).val.toNat = n := by
  have isValid : n.isValidChar := valid
  rw [Char.ofNat, dif_pos isValid]
  rfl

theorem begins_two {k : Nat} {rest : Bytes} {cs : List Char} (most : k < 32) (least : 2 ≤ k)
    (h : (piecesFrom none (UInt8.ofNat (k + 0xC0) :: rest)).mapM Piece.char? = some cs) :
    Begins (UInt8.ofNat (k + 0xC0) :: rest) cs := by
  have first := h
  rw [piecesFrom_cons, step, start_two k most least, List.nil_append] at first
  obtain ⟨k₁, rest, small₁, -, -, rfl⟩ := exists_next (by decide) (by decide) first
  obtain ⟨n, hn⟩ : ∃ n, n = k * 64 + k₁ := ⟨_, rfl⟩
  have digits : k + 0xC0 = n / 64 % 0x20 + 0xc0 ∧ k₁ + 0x80 = n % 0x40 + 0x80 := by omega
  refine begins_of_char (Char.ofNat n) rest ?_ h
  simp only [String.utf8EncodeChar, toNat_val_ofNat (n := n) (by omega)]
  rw [if_neg (by omega), if_pos (by omega), digits.1, digits.2]
  rfl

theorem begins_three {k : Nat} {rest : Bytes} {cs : List Char} (most : k < 16)
    (h : (piecesFrom none (UInt8.ofNat (k + 0xE0) :: rest)).mapM Piece.char? = some cs) :
    Begins (UInt8.ofNat (k + 0xE0) :: rest) cs := by
  have first := h
  rw [piecesFrom_cons, step, start_three k most, List.nil_append] at first
  obtain ⟨k₁, rest₁, small₁, least₁, greatest₁, rfl⟩ :=
    exists_next (by split <;> decide) (by split <;> decide) first
  rw [piecesFrom_more _ (by decide) small₁ least₁ greatest₁] at first
  obtain ⟨k₂, rest, small₂, -, -, rfl⟩ := exists_next (by decide) (by decide) first
  obtain ⟨n, hn⟩ : ∃ n, n = (k * 64 + k₁) * 64 + k₂ := ⟨_, rfl⟩
  -- The bounds of the second byte leave out overlong forms and surrogates.
  have least : 0x800 ≤ n := by
    split at least₁
    · have : (0xA0 : UInt8).toNat = 0xA0 := rfl
      omega
    · omega
  have valid : n < 0xD800 ∨ 0xDFFF < n := by
    split at greatest₁
    · have : (0x9F : UInt8).toNat = 0x9F := rfl
      omega
    · omega
  have digits : k + 0xE0 = n / 4096 % 0x10 + 0xe0 ∧ k₁ + 0x80 = n / 64 % 0x40 + 0x80 ∧
      k₂ + 0x80 = n % 0x40 + 0x80 := by omega
  refine begins_of_char (Char.ofNat n) rest ?_ h
  simp only [String.utf8EncodeChar, toNat_val_ofNat (n := n) (by omega)]
  rw [if_neg (by omega), if_neg (by omega), if_pos (by omega), digits.1, digits.2.1, digits.2.2]
  rfl

theorem begins_four {k : Nat} {rest : Bytes} {cs : List Char} (most : k < 5)
    (h : (piecesFrom none (UInt8.ofNat (k + 0xF0) :: rest)).mapM Piece.char? = some cs) :
    Begins (UInt8.ofNat (k + 0xF0) :: rest) cs := by
  have first := h
  rw [piecesFrom_cons, step, start_four k most, List.nil_append] at first
  obtain ⟨k₁, rest₁, small₁, least₁, greatest₁, rfl⟩ :=
    exists_next (by split <;> decide) (by split <;> decide) first
  rw [piecesFrom_more _ (by decide) small₁ least₁ greatest₁] at first
  obtain ⟨k₂, rest₂, small₂, least₂, greatest₂, rfl⟩ :=
    exists_next (by decide) (by decide) first
  rw [piecesFrom_more _ (by decide) small₂ least₂ greatest₂] at first
  obtain ⟨k₃, rest, small₃, -, -, rfl⟩ := exists_next (by decide) (by decide) first
  obtain ⟨n, hn⟩ : ∃ n, n = ((k * 64 + k₁) * 64 + k₂) * 64 + k₃ := ⟨_, rfl⟩
  -- The bounds of the second byte leave out overlong forms and too large values.
  have least : 0x10000 ≤ n := by
    split at least₁
    · have : (0x90 : UInt8).toNat = 0x90 := rfl
      omega
    · omega
  have greatest : n < 0x110000 := by
    split at greatest₁
    · have : (0x8F : UInt8).toNat = 0x8F := rfl
      omega
    · omega
  have digits : k + 0xF0 = n / 262144 % 0x08 + 0xf0 ∧ k₁ + 0x80 = n / 4096 % 0x40 + 0x80 ∧
      k₂ + 0x80 = n / 64 % 0x40 + 0x80 ∧ k₃ + 0x80 = n % 0x40 + 0x80 := by omega
  refine begins_of_char (Char.ofNat n) rest ?_ h
  simp only [String.utf8EncodeChar, toNat_val_ofNat (n := n) (by omega)]
  rw [if_neg (by omega), if_neg (by omega), if_neg (by omega), digits.1, digits.2.1,
    digits.2.2.1, digits.2.2.2]
  rfl

/-- Bytes that are read as characters begin with those of the first one. -/
theorem begins_of_pieces {b : UInt8} {rest : Bytes} {cs : List Char}
    (h : (piecesFrom none (b :: rest)).mapM Piece.char? = some cs) : Begins (b :: rest) cs := by
  rcases start_cases b with ⟨n, small, rfl⟩ | ⟨k, most, least, rfl⟩ | ⟨k, most, rfl⟩ |
    ⟨k, most, rfl⟩ | broken
  · refine begins_of_char (Char.ofNat n) rest ?_ h
    simp only [String.utf8EncodeChar, toNat_val_ofNat (n := n) (by omega)]
    rw [if_pos (by omega)]
    rfl
  · exact begins_two most least h
  · exact begins_three most h
  · exact begins_four most h
  · rw [piecesFrom_cons, step, broken] at h
    cases h

/-- Characters are read from their bytes, and from no others. -/
theorem chars?_eq_some_iff {bytes : Bytes} {cs : List Char} :
    chars? bytes = some cs ↔ bytes = encode (String.ofList cs) := by
  constructor
  · intro h
    rw [encode, String.toList_ofList]
    unfold chars? pieces at h
    induction cs generalizing bytes with
    | nil =>
      cases bytes with
      | nil => rfl
      | cons b rest =>
        obtain ⟨_, _, _, _, none, _⟩ := begins_of_pieces h
        cases none
    | cons c cs ih =>
      cases bytes with
      | nil => cases h
      | cons b rest =>
        obtain ⟨_, after, _, split, same, more⟩ := begins_of_pieces h
        obtain ⟨rfl, rfl⟩ := List.cons.inj same
        rw [split, List.flatMap_cons, ← ih more]
  · rintro rfl
    rw [chars?_encode, String.toList_ofList]

/-! ## Order -/

/-- Bytes compare like the numbers that they hold. -/
theorem cons_lt_cons_iff {a b : Nat} {x y : Bytes} (ha : a < 256) (hb : b < 256) :
    UInt8.ofNat a :: x < UInt8.ofNat b :: y ↔ a < b ∨ a = b ∧ x < y := by
  rw [List.cons_lt_cons_iff, UInt8.lt_iff_toNat_lt, ← UInt8.toNat_inj, toNat_ofNat ha,
    toNat_ofNat hb]

/-- The bytes of a lesser character come first, whatever follows them. -/
theorem utf8EncodeChar_append_lt {c d : Char} (less : c < d) (x y : Bytes) :
    String.utf8EncodeChar c ++ x < String.utf8EncodeChar d ++ y := by
  have top : d.val.toNat < 0x110000 := by
    rcases d.valid with low | high
    · exact Nat.lt_trans low (by decide)
    · exact high.2
  have bound : c.val.toNat < d.val.toNat := less
  generalize hn : c.val.toNat = n at bound
  generalize hm : d.val.toNat = m at bound top
  -- The bytes hold digits in base 64, so the quotients are taken one digit at a time.
  have digits : ∀ k, k / 4096 = k / 64 / 64 ∧ k / 262144 = k / 64 / 64 / 64 := by
    intro k
    omega
  simp only [String.utf8EncodeChar, hn, hm, digits]
  split_ifs <;>
    simp (disch := omega) only [List.cons_append, List.nil_append, cons_lt_cons_iff] <;> omega

/-- Texts have the order of their bytes. -/
theorem encode_lt_encode {s t : String} (less : s < t) : encode s < encode t := by
  rw [String.lt_iff] at less
  unfold encode
  generalize s.toList = cs at less
  generalize t.toList = ds at less
  induction cs generalizing ds with
  | nil =>
    cases ds with
    | nil => exact absurd less (List.lt_irrefl [])
    | cons d ds =>
      obtain ⟨b, bytes, some⟩ := List.exists_cons_of_ne_nil (String.utf8EncodeChar_ne_nil (c := d))
      rw [List.flatMap_cons, some]
      exact List.nil_lt_cons b _
  | cons c cs ih =>
    cases ds with
    | nil => exact absurd less (List.not_lt_nil _)
    | cons d ds =>
      rw [List.flatMap_cons, List.flatMap_cons]
      rcases List.cons_lt_cons_iff.mp less with first | ⟨rfl, rest⟩
      · exact utf8EncodeChar_append_lt first _ _
      · exact List.append_left_lt (ih ds rest)

end LanguageClient.Utf8
