import LanguageClient.Json.Lexer
import LanguageClient.Proofs.Number.Digits
import Mathlib.Algebra.Order.Ring.Int

/-!
# Tokens

`Json.tokens` gives the tokens of a value without a detour over a text.  Reading goes on from a
state character by character; words and numbers end only at what follows them, so what is said
about them has a rest behind the text, which must not begin with a letter or with anything that
could belong to a number (`Apart`).
-/

set_option autoImplicit false

namespace LanguageClient.Json

open LanguageClient.Number

mutual

/-- The tokens of a value. -/
def tokens : Json → List Token
  | .str s => [.text s]
  | .arr items => .openArray :: tokensItems items ++ [.closeArray]
  | .obj members => .openObject :: tokensMembers members ++ [.closeObject]
  | v => [.scalar v]

/-- The tokens of items, with commas between them. -/
def tokensItems : List Json → List Token
  | [] => []
  | [v] => tokens v
  | v :: rest => tokens v ++ .comma :: tokensItems rest

/-- The tokens of members, with commas between them. -/
def tokensMembers : List (String × Json) → List Token
  | [] => []
  | [(k, v)] => .text k :: .colon :: tokens v
  | (k, v) :: rest => .text k :: .colon :: tokens v ++ .comma :: tokensMembers rest

end

theorem tokensItems_cons (v : Json) (rest : List Json) :
    tokensItems (v :: rest) =
      tokens v ++ (if rest = [] then [] else .comma :: tokensItems rest) := by
  cases rest <;> simp [tokensItems]

theorem tokensMembers_cons (k : String) (v : Json) (rest : List (String × Json)) :
    tokensMembers ((k, v) :: rest) =
      .text k :: .colon ::
        (tokens v ++ (if rest = [] then [] else .comma :: tokensMembers rest)) := by
  cases rest <;> simp [tokensMembers]

mutual

/-- Whether every number inside the value is an integer of 64 bits, signed or unsigned. -/
def Integral : Json → Prop
  | .int i => -(2 ^ 63) ≤ i ∧ i < 2 ^ 64
  | .float _ => False
  | .arr items => IntegralItems items
  | .obj members => IntegralMembers members
  | _ => True

/-- Whether every item is integral. -/
def IntegralItems : List Json → Prop
  | [] => True
  | v :: rest => Integral v ∧ IntegralItems rest

/-- Whether every member's value is integral. -/
def IntegralMembers : List (String × Json) → Prop
  | [] => True
  | (_, v) :: rest => Integral v ∧ IntegralMembers rest

end

/-- Whether the text does not go on with a word or number. -/
def Apart (rest : List Char) : Prop :=
  ∀ c ∈ rest.head?, inWord c = false ∧ inNumber c = false

/-! ## Reading on -/

theorem tokensFrom_cons {state next : Reading} {c : Char} {found : List Token}
    (h : readChar state c = some (next, found)) (rest : List Char) :
    tokensFrom state (c :: rest) = (tokensFrom next rest).map (found ++ ·) := by
  simp [tokensFrom, h]

/-- A character that completes no token only changes the state. -/
theorem tokensFrom_silent {state next : Reading} {c : Char}
    (h : readChar state c = some (next, [])) (rest : List Char) :
    tokensFrom state (c :: rest) = tokensFrom next rest := by
  simp [tokensFrom_cons h]

/-- A token that ends where the rest begins comes before the tokens of the rest. -/
theorem tokensFrom_endToken {state : Reading} {t : Token} {rest : List Char}
    (atEnd : readEnd state = some [t])
    (before : ∀ c ∈ rest.head?, readChar state c = endToken (some t) c) :
    tokensFrom state rest = (tokensFrom .blank rest).map (t :: ·) := by
  cases rest with
  | nil =>
    simp only [tokensFrom, atEnd]
    rfl
  | cons c rest =>
    have now := before c (by simp)
    simp only [tokensFrom, now, endToken, Option.bind_some]
    simp only [readChar]
    cases fresh c with
    | none => rfl
    | some next => simp [Function.comp_def]

theorem tokensFrom_sign {c : Char} {t : Token} (h : fresh c = some (.blank, [t]))
    (rest : List Char) :
    tokensFrom .blank (c :: rest) = (tokensFrom .blank rest).map (t :: ·) :=
  tokensFrom_cons (show readChar .blank c = some (.blank, [t]) from h) rest

/-! ## Words and numbers -/

/-- A token that gathers characters while they belong to it is read whole. -/
theorem tokensFrom_gathered {state : List Char → Reading} {belongs : Char → Bool} {c : Char}
    {ds rest : List Char} {t : Token} (first : fresh c = some (state [c], []))
    (gather : ∀ cs d, belongs d = true → readChar (state cs) d = some (state (d :: cs), []))
    (inside : ∀ d ∈ ds, belongs d = true)
    (atEnd : readEnd (state (c :: ds).reverse) = some [t])
    (before : ∀ d ∈ rest.head?, readChar (state (c :: ds).reverse) d = endToken (some t) d) :
    tokensFrom .blank (c :: ds ++ rest) = (tokensFrom .blank rest).map (t :: ·) := by
  have all : ∀ ds cs, (∀ d ∈ ds, belongs d = true) →
      tokensFrom (state cs) (ds ++ rest) = tokensFrom (state (ds.reverse ++ cs)) rest := by
    intro ds
    induction ds with
    | nil => intro cs _; rfl
    | cons d ds ih =>
      intro cs inside
      obtain ⟨now, later⟩ := List.forall_mem_cons.mp inside
      rw [List.cons_append, tokensFrom_silent (gather cs d now), ih _ later, List.reverse_cons,
        List.append_assoc, List.singleton_append]
  rw [List.cons_append, tokensFrom_silent (show readChar .blank c = _ from first),
    all ds [c] inside, ← List.reverse_cons]
  exact tokensFrom_endToken atEnd before

/-- The words for truth values and null are read whole. -/
theorem tokensFrom_word {c : Char} {ds rest : List Char} {v : Json}
    (first : fresh c = some (.word [c], [])) (letters : ds.all inWord = true)
    (token : wordToken? (c :: ds) = some (.scalar v)) (apart : Apart rest) :
    tokensFrom .blank (c :: ds ++ rest) = (tokensFrom .blank rest).map (.scalar v :: ·) := by
  refine tokensFrom_gathered first (fun cs d letter => ?_) (List.all_eq_true.mp letters) ?_
    fun d hd => ?_
  · simp [readChar, letter]
  · simp only [readEnd, List.reverse_reverse, token, Option.map_some]
  · simp only [readChar, (apart d hd).1, Bool.false_eq_true, if_false, List.reverse_reverse, token]

theorem inNumber_of_isDigit {c : Char} (h : isDigit c = true) : inNumber c = true := by
  simp [inNumber, h]

theorem fresh_of_isDigit {c : Char} (h : isDigit c = true) : fresh c = some (.number [c], []) := by
  have table : ∀ n < 58, 48 ≤ n →
      fresh (Char.ofNat n) = some (.number [Char.ofNat n], []) := by decide
  have bounds := (isDigit_iff c).mp h
  rw [← Char.ofNat_toNat c]
  exact table c.toNat (by omega) bounds.1

end LanguageClient.Json
