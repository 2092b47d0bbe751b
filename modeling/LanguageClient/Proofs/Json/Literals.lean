import LanguageClient.Proofs.Json.Tokens
import Mathlib.Data.List.TakeWhile

/-!
# How number literals are written

A literal is a sign, a whole part without a superfluous zero in front, perhaps a fraction and
perhaps a power of ten.  Splitting the characters of a literal finds just these parts, so a text
is a number exactly if it is written like one and the number is not too large.
-/

set_option autoImplicit false

namespace LanguageClient.Json

open LanguageClient.Number

/-! ## The parts of a literal -/

/-- Whether characters are decimal digits, at least one. -/
def AreDigits (ds : List Char) : Prop := ds ≠ [] ∧ ∀ d ∈ ds, isDigit d = true

/-- How a fraction is written. -/
inductive WritesFraction : List Char → Option (List Char) → Prop
  | absent : WritesFraction [] none
  | point {ds : List Char} (digits : AreDigits ds) : WritesFraction ('.' :: ds) (some ds)

/-- How a power of ten is written: with a sign or without. -/
inductive WritesPower : List Char → Option (Bool × List Char) → Prop
  | absent : WritesPower [] none
  | plain {e : Char} {ds : List Char} (mark : e = 'e' ∨ e = 'E') (digits : AreDigits ds) :
      WritesPower (e :: ds) (some (false, ds))
  | plus {e : Char} {ds : List Char} (mark : e = 'e' ∨ e = 'E') (digits : AreDigits ds) :
      WritesPower (e :: '+' :: ds) (some (false, ds))
  | minus {e : Char} {ds : List Char} (mark : e = 'e' ∨ e = 'E') (digits : AreDigits ds) :
      WritesPower (e :: '-' :: ds) (some (true, ds))

/-- How a number literal is written behind its sign: digits without a superfluous zero in front,
perhaps a fraction, perhaps a power of ten. -/
def Literal.WritesUnsigned (l : Literal) (cs : List Char) : Prop :=
  ∃ fraction power, wholeDigits l.whole = true ∧ WritesFraction fraction l.fraction ∧
    WritesPower power l.power ∧ cs = l.whole ++ (fraction ++ power)

/-- How a number literal is written, with a minus if it is negative. -/
inductive Literal.Writes (l : Literal) : List Char → Prop
  | minus {cs : List Char} (negative : l.negative = true) (unsigned : l.WritesUnsigned cs) :
      Writes l ('-' :: cs)
  | plain {cs : List Char} (negative : l.negative = false) (unsigned : l.WritesUnsigned cs) :
      Writes l cs

/-! ## Splitting -/

theorem areDigits_of_wholeDigits {ds : List Char} (h : wholeDigits ds = true) : AreDigits ds := by
  unfold wholeDigits at h
  split at h
  · cases h
  · refine ⟨by simp, fun d hd => ?_⟩
    obtain rfl : d = '0' := by simpa using hd
    rfl
  · cases h
  · rename_i nonempty _ _
    exact ⟨nonempty, by simpa using h⟩

/-- The check for digits behind the mark of a power. -/
theorem not_areDigits_iff {ds : List Char} :
    (ds.isEmpty || !ds.all isDigit) = true ↔ ¬ AreDigits ds := by
  simp [AreDigits, imp_iff_not_or]

theorem AreDigits.head_ne {ds : List Char} (digits : AreDigits ds) {c : Char}
    (other : isDigit c = false) (rest : List Char) : ds ≠ c :: rest := by
  rintro rfl
  rw [digits.2 c List.mem_cons_self] at other
  cases other

theorem splitPower_eq_some_iff {cs : List Char} {power : Option (Bool × List Char)} :
    splitPower cs = some power ↔ WritesPower cs power := by
  constructor
  · intro h
    match cs with
    | [] =>
      obtain rfl : none = power := by simpa [splitPower] using h
      exact .absent
    | e :: rest =>
      simp only [splitPower, Option.ite_none_right_eq_some, not_areDigits_iff] at h
      obtain ⟨mark, h⟩ := h
      -- The sign behind the mark, if there is one.
      split at h <;>
        simp only [not_areDigits_iff, Option.ite_none_left_eq_some, not_not,
          Option.some.injEq] at h <;>
        obtain ⟨digits, rfl⟩ := h
      · exact .minus mark digits
      · exact .plus mark digits
      · exact .plain mark digits
  · have good : ∀ {ds : List Char}, AreDigits ds → ¬ (ds.isEmpty || !ds.all isDigit) = true :=
      fun digits => not_areDigits_iff.not.mpr (not_not.mpr digits)
    rintro (_ | ⟨mark, digits⟩ | ⟨mark, digits⟩ | ⟨mark, digits⟩)
    · rfl
    · rw [splitPower, if_pos mark]
      · exact if_neg (good digits)
      · exact fun rest => digits.head_ne (c := '-') (by decide) rest
      · exact fun rest => digits.head_ne (c := '+') (by decide) rest
    · rw [splitPower, if_pos mark]
      exact if_neg (good digits)
    · rw [splitPower, if_pos mark]
      exact if_neg (good digits)

/-- Splits a literal behind its sign. -/
def splitUnsigned (negative : Bool) (cs : List Char) : Option Literal :=
  let whole := cs.takeWhile isDigit
  let (fraction, rest) := splitFraction (cs.dropWhile isDigit)
  if wholeDigits whole && fraction != some [] then
    (splitPower rest).map fun power => ⟨negative, whole, fraction, power⟩
  else none

theorem split?_minus (cs : List Char) : Literal.split? ('-' :: cs) = splitUnsigned true cs := rfl

theorem split?_of_ne {cs : List Char} (other : ∀ rest, cs ≠ '-' :: rest) :
    Literal.split? cs = splitUnsigned false cs := by
  unfold Literal.split?
  split
  rename_i negative rest sign
  split at sign
  · exact absurd rfl (other _)
  · obtain ⟨rfl, rfl⟩ := Prod.mk.inj sign
    rfl

/-- Digits in front of something else are taken whole. -/
theorem span_digits {ds rest : List Char} (digits : ∀ d ∈ ds, isDigit d = true)
    (other : ∀ c ∈ rest.head?, isDigit c = false) :
    (ds ++ rest).takeWhile isDigit = ds ∧ (ds ++ rest).dropWhile isDigit = rest := by
  rw [List.takeWhile_append_of_pos digits, List.dropWhile_append_of_pos digits]
  cases rest with
  | nil => simp
  | cons c rest => simp [other c rfl]

theorem splitUnsigned_eq_some_iff {negative : Bool} {cs : List Char} {l : Literal} :
    splitUnsigned negative cs = some l ↔ l.negative = negative ∧ l.WritesUnsigned cs := by
  constructor
  · intro h
    simp only [splitUnsigned, Option.ite_none_right_eq_some, Bool.and_eq_true, bne_iff_ne,
      Option.map_eq_some_iff] at h
    obtain ⟨⟨whole, fraction⟩, power, split, rfl⟩ := h
    have written := splitPower_eq_some_iff.mp split
    have all := (List.takeWhile_append_dropWhile (p := isDigit) (l := cs)).symm
    refine ⟨rfl, ?_⟩
    unfold splitFraction at fraction written ⊢
    split at written
    · rename_i rest point
      rw [point] at all fraction
      refine ⟨'.' :: rest.takeWhile isDigit, _, whole, .point ⟨?_, ?_⟩, written, ?_⟩
      · simpa using fraction
      · exact fun d hd => List.mem_takeWhile_imp hd
      · rw [List.cons_append, List.takeWhile_append_dropWhile]
        exact all
    · exact ⟨[], _, whole, .absent, written, all⟩
  · obtain ⟨_, ds, part, exponent⟩ := l
    rintro ⟨rfl, fraction, power, whole, written, writes, rfl⟩
    dsimp only at whole written writes ⊢
    -- Neither a point nor the mark of a power is a digit.
    have behind : ∀ c ∈ power.head?, isDigit c = false ∧ c ≠ '.' := by
      cases writes with
      | absent => simp
      | plain mark | plus mark | minus mark =>
        intro c hc
        obtain rfl : _ = c := by simpa using hc
        rcases mark with rfl | rfl <;> decide
    have other : ∀ c ∈ (fraction ++ power).head?, isDigit c = false := by
      cases written with
      | absent => exact fun c hc => (behind c hc).1
      | point =>
        intro c hc
        obtain rfl : '.' = c := by simpa using hc
        rfl
    obtain ⟨front, back⟩ := span_digits (areDigits_of_wholeDigits whole).2 other
    have fractions : splitFraction (fraction ++ power) = (part, power) ∧
        (part != some []) = true := by
      cases written with
      | absent =>
        refine ⟨?_, rfl⟩
        cases power with
        | nil => rfl
        | cons c power =>
          unfold splitFraction
          split
          · rename_i same
            exact absurd (List.cons.inj same).1 (behind c rfl).2
          · rfl
      | point digits =>
        obtain ⟨taken, left⟩ := span_digits digits.2 fun c hc => (behind c hc).1
        refine ⟨?_, by simpa using digits.1⟩
        simp only [List.cons_append, splitFraction, taken, left]
    simp only [splitUnsigned, front, back, fractions.1, fractions.2, whole,
      splitPower_eq_some_iff.mpr writes]
    rfl

/-- Behind its sign a literal starts with a digit. -/
theorem Literal.WritesUnsigned.head {l : Literal} {cs : List Char} (h : l.WritesUnsigned cs) :
    ∃ d rest, cs = d :: rest ∧ isDigit d = true := by
  obtain ⟨fraction, power, whole, -, -, rfl⟩ := h
  obtain ⟨nonempty, digits⟩ := areDigits_of_wholeDigits whole
  obtain ⟨d, ds, same⟩ := List.exists_cons_of_ne_nil nonempty
  exact ⟨d, ds ++ (fraction ++ power), by rw [same]; rfl, digits d (by simp [same])⟩

/-- A literal is split into what it is written with. -/
theorem split?_eq_some_iff {cs : List Char} {l : Literal} :
    Literal.split? cs = some l ↔ l.Writes cs := by
  constructor
  · intro h
    by_cases minus : ∃ rest, cs = '-' :: rest
    · obtain ⟨rest, rfl⟩ := minus
      rw [split?_minus, splitUnsigned_eq_some_iff] at h
      exact .minus h.1 h.2
    · rw [split?_of_ne fun rest same => minus ⟨rest, same⟩, splitUnsigned_eq_some_iff] at h
      exact .plain h.1 h.2
  · rintro (⟨negative, unsigned⟩ | ⟨negative, unsigned⟩)
    · rw [split?_minus, splitUnsigned_eq_some_iff]
      exact ⟨negative, unsigned⟩
    · rw [split?_of_ne, splitUnsigned_eq_some_iff]
      · exact ⟨negative, unsigned⟩
      · rintro rest rfl
        obtain ⟨d, _, same, digit⟩ := unsigned.head
        obtain rfl := (List.cons.inj same).1
        cases digit

/-! ## What a literal consists of -/

theorem AreDigits.inNumber {ds : List Char} (digits : AreDigits ds) :
    ∀ d ∈ ds, Json.inNumber d = true :=
  fun d hd => inNumber_of_isDigit (digits.2 d hd)

theorem WritesFraction.inNumber {cs : List Char} {fraction : Option (List Char)}
    (h : WritesFraction cs fraction) : ∀ c ∈ cs, Json.inNumber c = true := by
  cases h with
  | absent => simp
  | point digits => exact List.forall_mem_cons.mpr ⟨rfl, digits.inNumber⟩

theorem WritesPower.inNumber {cs : List Char} {power : Option (Bool × List Char)}
    (h : WritesPower cs power) : ∀ c ∈ cs, Json.inNumber c = true := by
  have marked : ∀ {e : Char}, e = 'e' ∨ e = 'E' → Json.inNumber e = true := by
    rintro e (rfl | rfl) <;> rfl
  cases h with
  | absent => simp
  | plain mark digits => exact List.forall_mem_cons.mpr ⟨marked mark, digits.inNumber⟩
  | plus mark digits | minus mark digits =>
    exact List.forall_mem_cons.mpr ⟨marked mark, List.forall_mem_cons.mpr ⟨rfl, digits.inNumber⟩⟩

/-- All of a literal may belong to a number. -/
theorem Literal.Writes.inNumber {l : Literal} {cs : List Char} (h : l.Writes cs) :
    ∀ c ∈ cs, Json.inNumber c = true := by
  have rest : ∀ {cs : List Char}, l.WritesUnsigned cs → ∀ c ∈ cs, Json.inNumber c = true := by
    rintro cs ⟨fraction, power, whole, written, writes, rfl⟩ c hc
    rcases List.mem_append.mp hc with front | hc
    · exact (areDigits_of_wholeDigits whole).inNumber c front
    rcases List.mem_append.mp hc with middle | back
    · exact written.inNumber c middle
    · exact writes.inNumber c back
  cases h with
  | minus _ unsigned => exact List.forall_mem_cons.mpr ⟨rfl, rest unsigned⟩
  | plain _ unsigned => exact rest unsigned

/-- A literal starts with a minus or a digit. -/
theorem Literal.Writes.head {l : Literal} {cs : List Char} (h : l.Writes cs) :
    ∃ c rest, cs = c :: rest ∧ (c = '-' ∨ isDigit c = true) := by
  cases h with
  | minus _ unsigned => exact ⟨'-', _, rfl, .inl rfl⟩
  | plain _ unsigned =>
    obtain ⟨d, rest, same, digit⟩ := unsigned.head
    exact ⟨d, rest, same, .inr digit⟩

/-- What a literal stands for is an integer of 64 bits or a floating-point number. -/
theorem Literal.value?_cases {l : Literal} {v : Json} (h : l.value? = some v) :
    (∃ i : Int, v = .int i ∧ -(2 ^ 63) ≤ i ∧ i < 2 ^ 64) ∨ ∃ x, v = .float x := by
  have float : ∀ {v : Json}, l.float?.map Json.float = some v → ∃ x, v = .float x := by
    intro v h
    obtain ⟨x, _, rfl⟩ := Option.map_eq_some_iff.mp h
    exact ⟨x, rfl⟩
  unfold Literal.value? at h
  simp only at h
  split at h
  · split at h
    · split at h
      · rename_i bounds
        obtain rfl := Option.some.inj h
        exact .inl ⟨_, rfl, by omega, by omega⟩
      · exact .inr (float h)
    · split at h
      · obtain rfl := Option.some.inj h
        exact .inl ⟨_, rfl, by omega, by omega⟩
      · exact .inr (float h)
  · exact .inr (float h)

end LanguageClient.Json
