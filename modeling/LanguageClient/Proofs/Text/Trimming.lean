import LanguageClient.Text.Blank
import Mathlib.Data.List.DropRight
import Mathlib.Data.List.TakeWhile

/-!
# Trimming

What trimming takes off a text is of the class that is trimmed, and what it leaves neither
begins nor ends with such a character.  So more of these around a text change nothing.
-/

set_option autoImplicit false

namespace LanguageClient.Text

variable {p : Char → Bool} {cs left right : List Char} {c : Char}

/-! ## At the end -/

theorem trimEnd_append_of_all (all : ∀ c ∈ right, p c = true) (cs : List Char) :
    trimEnd p (cs ++ right) = trimEnd p cs := by
  have reversed : ∀ c ∈ right.reverse, p c = true := fun c hc => all c (List.mem_reverse.mp hc)
  rw [trimEnd, trimEnd, List.reverse_append, List.dropWhile_append_of_pos reversed]

/-- What is in front of a character that stays, stays too. -/
theorem trimEnd_append_cons (stays : p c = false) (cs right : List Char) :
    trimEnd p (cs ++ c :: right) = cs ++ c :: trimEnd p right := by
  rw [trimEnd, trimEnd, List.reverse_append, List.reverse_cons, List.append_assoc,
    List.dropWhile_append]
  split
  · rename_i gone
    rw [List.isEmpty_iff] at gone
    simp [gone, stays]
  · simp

theorem exists_trimEnd_append (p : Char → Bool) (cs : List Char) :
    ∃ right, cs = trimEnd p cs ++ right ∧ ∀ c ∈ right, p c = true := by
  refine ⟨cs.rtakeWhile p, ?_, fun c hc => List.mem_rtakeWhile_imp hc⟩
  rw [trimEnd, List.rtakeWhile, ← List.reverse_append, List.takeWhile_append_dropWhile,
    List.reverse_reverse]

theorem trimEnd_eq_nil_iff : trimEnd p cs = [] ↔ ∀ c ∈ cs, p c = true :=
  List.rdropWhile_eq_nil_iff

theorem trimEnd_eq_self (last : ∀ c ∈ cs.getLast?, p c = false) : trimEnd p cs = cs := by
  refine List.rdropWhile_eq_self_iff.mpr fun nonempty => ?_
  rw [last _ (List.getLast?_eq_some_getLast nonempty)]
  exact Bool.false_ne_true

/-! ## At both ends -/

theorem trimBoth_eq (p : Char → Bool) (cs : List Char) :
    trimBoth p cs = trimEnd p (cs.dropWhile p) := rfl

theorem trimBoth_append_left (all : ∀ c ∈ left, p c = true) (cs : List Char) :
    trimBoth p (left ++ cs) = trimBoth p cs := by
  rw [trimBoth_eq, trimBoth_eq, List.dropWhile_append_of_pos all]

theorem trimBoth_append_right (all : ∀ c ∈ right, p c = true) (cs : List Char) :
    trimBoth p (cs ++ right) = trimBoth p cs := by
  rw [trimBoth_eq, trimBoth_eq, List.dropWhile_append]
  split
  · rename_i gone
    rw [List.isEmpty_iff] at gone
    rw [gone, List.dropWhile_eq_nil_iff.mpr all]
  · exact trimEnd_append_of_all all _

/-- Characters of the class around a text are trimmed with those in it. -/
theorem trimBoth_padded (front : ∀ c ∈ left, p c = true) (back : ∀ c ∈ right, p c = true)
    (cs : List Char) : trimBoth p (left ++ cs ++ right) = trimBoth p cs := by
  rw [trimBoth_append_right back, trimBoth_append_left front]

theorem trimBoth_eq_self (first : ∀ c ∈ cs.head?, p c = false)
    (last : ∀ c ∈ cs.getLast?, p c = false) : trimBoth p cs = cs := by
  have front : cs.dropWhile p = cs := by
    cases cs with
    | nil => rfl
    | cons c cs => rw [List.dropWhile_cons_of_neg (by simp [first c rfl])]
  rw [trimBoth_eq, front, trimEnd_eq_self last]

/-- A text is what trimming leaves, between characters of the class. -/
theorem exists_padding (p : Char → Bool) (cs : List Char) :
    ∃ left right, cs = left ++ trimBoth p cs ++ right ∧ (∀ c ∈ left, p c = true) ∧
      ∀ c ∈ right, p c = true := by
  obtain ⟨right, split, back⟩ := exists_trimEnd_append p (cs.dropWhile p)
  refine ⟨cs.takeWhile p, right, ?_, fun c hc => List.mem_takeWhile_imp hc, back⟩
  rw [trimBoth_eq, List.append_assoc, ← split, List.takeWhile_append_dropWhile]

/-- A text that begins with a character outside the class still does. -/
theorem head?_trimBoth (front : ∀ c ∈ left, p c = true) (stays : p c = false)
    (cs : List Char) : (trimBoth p (left ++ c :: cs)).head? = some c := by
  have kept := trimEnd_append_cons stays [] cs
  rw [List.nil_append, List.nil_append] at kept
  rw [trimBoth_append_left front, trimBoth_eq, List.dropWhile_cons_of_neg (by simp [stays]), kept]
  rfl

/-- Trimming a smaller class at the end first changes nothing. -/
theorem trimBoth_trimEnd {q : Char → Bool} (within : ∀ c, q c = true → p c = true)
    (cs : List Char) : trimBoth p (trimEnd q cs) = trimBoth p cs := by
  obtain ⟨right, split, back⟩ := exists_trimEnd_append q cs
  calc trimBoth p (trimEnd q cs)
      = trimBoth p (trimEnd q cs ++ right) :=
        (trimBoth_append_right (fun c hc => within c (back c hc)) _).symm
    _ = trimBoth p cs := by rw [← split]

end LanguageClient.Text
