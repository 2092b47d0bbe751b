import LanguageClient.Json.Printer
import LanguageClient.Proofs.Json.Spelling

/-!
# Printed JSON

The compact text of a value whose numbers are integers is one way to write its tokens, so reading
it yields these tokens.
-/

set_option autoImplicit false

namespace LanguageClient.Json

open LanguageClient.Number

/-! ## Literals and strings -/

/-- An integer of 64 bits is written by its digits. -/
theorem writes_intText {i : Int} (low : -(2 ^ 63) ≤ i) (high : i < 2 ^ 64) :
    Token.Writes (.scalar (.int i)) (intText i) := by
  have unsigned : ∀ negative n,
      (Literal.mk negative (natText n) none none).WritesUnsigned (natText n) :=
    fun negative n => ⟨[], [], wholeDigits_natText n, .absent, .absent, (List.append_nil _).symm⟩
  cases i with
  | ofNat n =>
    refine .number (.plain rfl (unsigned false n)) ?_
    have small : n < 2 ^ 64 := by
      simp only [Int.ofNat_eq_natCast] at high
      omega
    simp [Literal.value?, natOfDigits_natText]
    omega
  | negSucc n =>
    refine .number (.minus rfl (unsigned true (n + 1))) ?_
    simp [Literal.value?, natOfDigits_natText, Int.negSucc_eq]
    omega

/-- A control character is written by its code unit. -/
theorem isUnit_hexDigit {n : Nat} (h : n < 0x20) :
    IsUnit ['0', '0', hexDigit (n / 16), hexDigit n] n := by
  have digits : ∀ k < 0x20, IsUnit ['0', '0', hexDigit (k / 16), hexDigit k] k := by
    unfold IsUnit
    decide
  exact digits n h

/-- What is printed for a character inside a string writes it. -/
theorem writesChar_escape (c : Char) : WritesChar c (escape c) := by
  fun_cases escape c with
  | case8 quotation backslash _ _ _ _ _ control => exact .unit (isUnit_hexDigit control)
  | case9 quotation backslash _ _ _ _ _ plain => exact .plain quotation backslash plain
  | _ => subst_vars; exact .short rfl

theorem writes_quote (s : String) : Token.Writes (.text s) (quote s) := by
  have each : List.Forall₂ WritesChar s.toList (s.toList.map escape) :=
    List.forall₂_map_right_iff.mpr (List.forall₂_same.mpr fun c _ => writesChar_escape c)
  rw [quote, List.flatMap_def]
  exact .text each

/-! ## Values -/

mutual

/-- The compact text of a value spells its tokens, whatever is spelled behind it. -/
theorem spells_chars : ∀ {v : Json} {ts : List Token} {rest : List Char}, Integral v →
    Spells ts rest → Spells (tokens v ++ ts) (chars v ++ rest)
  | .null, _, _, _, more => more.cons .null
  | .bool true, _, _, _, more => more.cons .true
  | .bool false, _, _, _, more => more.cons .false
  | .int _, _, _, h, more => more.cons (writes_intText h.1 h.2)
  | .str s, _, _, _, more => more.cons (writes_quote s)
  | .arr _, _, _, h, more => by
    have whole := (spells_charsItems h (more.cons .closeArray)).cons .openArray
    simpa [tokens, chars] using whole
  | .obj _, _, _, h, more => by
    have whole := (spells_charsMembers h (more.cons .closeObject)).cons .openObject
    simpa [tokens, chars] using whole

theorem spells_charsItems : ∀ {items : List Json} {ts : List Token} {rest : List Char},
    IntegralItems items → Spells ts rest →
      Spells (tokensItems items ++ ts) (charsItems items ++ rest)
  | [], _, _, _, more => more
  | [v], _, _, h, more => spells_chars h.1 more
  | v :: w :: items, _, _, h, more => by
    have others := (spells_charsItems h.2 more).cons .comma
    have whole := spells_chars h.1 others
    simpa [tokensItems, charsItems] using whole

theorem spells_charsMembers : ∀ {members : List (String × Json)} {ts : List Token}
    {rest : List Char}, IntegralMembers members → Spells ts rest →
      Spells (tokensMembers members ++ ts) (charsMembers members ++ rest)
  | [], _, _, _, more => more
  | [(k, v)], _, _, h, more => by
    have value := ((spells_chars h.1 more).cons .colon).cons (writes_quote k)
    simpa [tokensMembers, charsMembers] using value
  | (k, v) :: e :: members, _, _, h, more => by
    have others := (spells_charsMembers h.2 more).cons .comma
    have value := ((spells_chars h.1 others).cons .colon).cons (writes_quote k)
    simpa [tokensMembers, charsMembers] using value

end

/-- The compact text of a value has the tokens of the value. -/
theorem tokens?_chars {v : Json} (h : Integral v) : tokens? (chars v) = some (tokens v) := by
  have whole := spells_chars h (.done (List.forall_mem_nil _))
  rw [List.append_nil, List.append_nil] at whole
  exact tokens?_of_spells whole (separate_tokens_alone v)

end LanguageClient.Json
