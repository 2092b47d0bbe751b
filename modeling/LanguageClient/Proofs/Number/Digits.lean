import LanguageClient.Json.Number

/-!
# Reading what was written in base ten

The digits of a whole number are decimal digits, there is at least one, none of them is a
superfluous zero, and their value is the number.
-/

set_option autoImplicit false

namespace LanguageClient.Number

theorem isDigit_iff (c : Char) : isDigit c = true ↔ 48 ≤ c.toNat ∧ c.toNat ≤ 57 := by
  simp only [isDigit, Bool.and_eq_true, decide_eq_true_eq, Char.le_def, UInt32.le_iff_toNat_le]
  exact Iff.rfl

theorem isDigit_of_mem_natText {n : Nat} {c : Char} (h : c ∈ natText n) : isDigit c = true := by
  have digit := Nat.isDigit_of_mem_toDigits (by decide) (by decide) h
  rw [isDigit_iff]
  simpa [Char.isDigit, UInt32.le_iff_toNat_le] using digit

theorem natText_ne_nil (n : Nat) : natText n ≠ [] := Nat.toDigits_ne_nil

theorem natOfDigits_natText (n : Nat) : natOfDigits (natText n) = n := by
  calc natOfDigits (natText n) = Nat.ofDigitChars 10 (natText n) 0 := by
        rw [Nat.ofDigitChars_eq_foldl]
        simp only [natOfDigits, Nat.mul_comm]
        rfl
    _ = n := Nat.ofDigitChars_ten_toDigits

theorem digitValue?_of_isDigit {c : Char} (h : isDigit c = true) :
    digitValue? 10 c = some (c.toNat - 48) := by
  rw [isDigit_iff] at h
  have small : c.toNat - 48 < 10 := by omega
  simp [digitValue?, h, small]

/-- A string of digits is read as its value. -/
theorem ofDigits?_eq_natOfDigits {cs : List Char} (hne : cs ≠ [])
    (h : ∀ c ∈ cs, isDigit c = true) : ofDigits? 10 cs = some (natOfDigits cs) := by
  have fold : ∀ (ds : List Char) (k : Nat), (∀ c ∈ ds, isDigit c = true) →
      ds.foldlM (fun n c => (digitValue? 10 c).map (n * 10 + ·)) k =
        some (ds.foldl (fun n c => n * 10 + (c.toNat - 48)) k) := by
    intro ds
    induction ds with
    | nil => intro k _; rfl
    | cons c ds ih =>
      intro k hds
      rw [List.foldlM_cons, digitValue?_of_isDigit (hds c List.mem_cons_self), List.foldl_cons]
      exact ih _ fun d hd => hds d (List.mem_cons_of_mem c hd)
  rw [ofDigits?, if_neg (by simpa using hne), fold cs 0 h, natOfDigits]

theorem ofDigits?_natText (n : Nat) : ofDigits? 10 (natText n) = some n := by
  rw [ofDigits?_eq_natOfDigits (natText_ne_nil n) fun _ => isDigit_of_mem_natText,
    natOfDigits_natText]

theorem natText_of_lt {n : Nat} (small : n < 10) : natText n = [n.digitChar] :=
  Nat.toDigits_of_lt_base small

theorem natText_of_le {n : Nat} (large : 10 ≤ n) :
    natText n = natText (n / 10) ++ [(n % 10).digitChar] :=
  Nat.toDigits_of_base_le (by decide) large

/-- A greater number has no fewer digits. -/
theorem length_natText_le {m n : Nat} (le : m ≤ n) :
    (natText m).length ≤ (natText n).length := by
  induction m using Nat.strongRecOn generalizing n with
  | ind m ih =>
    by_cases small : m < 10
    · rw [natText_of_lt small]
      exact List.length_pos_iff.mpr (natText_ne_nil n)
    · have fewer := ih (m / 10) (by omega) (Nat.div_le_div_right le)
      rw [natText_of_le (by omega : 10 ≤ m), natText_of_le (by omega : 10 ≤ n)]
      simpa using fewer

/-- Only zero begins with the digit zero. -/
theorem head?_natText {n : Nat} (h : (natText n).head? = some '0') : n = 0 := by
  induction n using Nat.strongRecOn with
  | ind n ih =>
    by_cases small : n < 10
    · have digits : natText n = [n.digitChar] := natText_of_lt small
      have zero : ∀ k < 10, k.digitChar = '0' → k = 0 := by decide
      exact zero n small (by simpa [digits] using h)
    · have digits : natText n = natText (n / 10) ++ [(n % 10).digitChar] :=
        natText_of_le (by omega)
      have first : (natText (n / 10)).head? = some '0' := by
        obtain ⟨c, cs, hc⟩ := List.exists_cons_of_ne_nil (natText_ne_nil (n / 10))
        rw [digits, hc] at h
        rw [hc]
        exact h
      have := ih (n / 10) (by omega) first
      omega

end LanguageClient.Number

namespace LanguageClient.Json

open LanguageClient.Number

/-- The digits of a number are those of a whole part. -/
theorem wholeDigits_natText (n : Nat) : wholeDigits (natText n) = true := by
  by_cases hn : n = 0
  · subst hn
    rfl
  · have all : (natText n).all isDigit = true :=
      List.all_eq_true.mpr fun _ => isDigit_of_mem_natText
    have head := mt (head?_natText (n := n)) hn
    unfold wholeDigits
    split
    · rename_i h
      exact absurd h (natText_ne_nil n)
    · rfl
    · rename_i h
      simp [h] at head
    · exact all

end LanguageClient.Json
