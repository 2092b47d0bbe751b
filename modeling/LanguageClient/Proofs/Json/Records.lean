import LanguageClient.Json.Record
import LanguageClient.Proofs.Entries
import LanguageClient.Proofs.Json.Tokens

/-!
# Records built from members

What an object of the members that are present holds: the value of each of its keys, and
the properties that all of these values have.
-/

set_option autoImplicit false

namespace LanguageClient.Json

variable {key k : String} {o : Option Json} {members : List (String × Option Json)}

/-! ## Values under keys -/

/-- The value under a key in front of other members; a later one with the key wins. -/
@[simp] theorem find?_ofList_present_cons (key k : String) (o : Option Json)
    (members : List (String × Option Json)) :
    Entries.find? key (Entries.ofList (present ((k, o) :: members))) =
      (Entries.find? key (Entries.ofList (present members)) <|> if k = key then o else none) := by
  have append : ∀ (es : Members) (e : String × Json),
      Entries.find? key (es ++ [e]) =
        (Entries.find? key es <|> if e.1 = key then some e.2 else none) := by
    intro es e
    induction es with
    | nil => by_cases h : e.1 = key <;> simp [Entries.find?, h]
    | cons d es ih => by_cases h : d.1 = key <;> simp [Entries.find?, h, ih]
  cases o with
  | none => simp [present]
  | some v =>
    have cons : present ((k, some v) :: members) = (k, v) :: present members := rfl
    rw [cons, Entries.find?_ofList, Entries.find?_ofList, List.reverse_cons, append]

@[simp] theorem find?_ofList_present_nil (key : String) :
    Entries.find? key (Entries.ofList (present [])) = none := rfl

/-- The value that an object of present members has under a key. -/
@[simp] theorem get?_ofPresent (key : String) (members : List (String × Option Json)) :
    (ofPresent members).get? key = Entries.find? key (Entries.ofList (present members)) := rfl

/-- An optional field of any value is what is given for it, unless that is null. -/
theorem Record.optional_some (r : Record) (index : Nat) (key : String) :
    r.optional index key some = some ((r.get? index key).filter fun v => !v.isNull) := by
  unfold Record.optional
  cases r.get? index key with
  | none => rfl
  | some v => cases v <;> rfl

/-! ## Properties of all values -/

theorem orderedMembers_iff {members : List (String × Json)} :
    OrderedMembers members ↔ ∀ e ∈ members, Ordered e.2 := by
  induction members with
  | nil => simp [OrderedMembers]
  | cons e members ih => simp [OrderedMembers, ih]

theorem integralMembers_iff {members : List (String × Json)} :
    IntegralMembers members ↔ ∀ e ∈ members, Integral e.2 := by
  induction members with
  | nil => simp [IntegralMembers]
  | cons e members ih => simp [IntegralMembers, ih]

/-- Every value of an object of present members is one of those given. -/
theorem mem_ofList_present {e : String × Json} (h : e ∈ Entries.ofList (present members)) :
    (e.1, some e.2) ∈ members := by
  have given := Entries.mem_ofList h
  simp only [present, List.mem_filterMap] at given
  obtain ⟨⟨k, o⟩, mem, eq⟩ := given
  cases o with
  | none => simp at eq
  | some v =>
    obtain rfl : (k, v) = e := by simpa using eq
    exact mem

theorem ordered_ofPresent (h : ∀ k v, (k, some v) ∈ members → Ordered v) :
    Ordered (ofPresent members) := by
  refine ⟨Entries.increasing_ofList _, orderedMembers_iff.mpr fun e he => ?_⟩
  exact h e.1 e.2 (mem_ofList_present he)

theorem integral_ofPresent (h : ∀ k v, (k, some v) ∈ members → Integral v) :
    Integral (ofPresent members) := by
  refine integralMembers_iff.mpr fun e he => ?_
  exact h e.1 e.2 (mem_ofList_present he)

end LanguageClient.Json
