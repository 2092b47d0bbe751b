import LanguageClient.Json.Parser
import LanguageClient.Proofs.Json.Printing
import LanguageClient.Proofs.Json.Tidying
import LanguageClient.Proofs.Text.Utf8

/-!
# Printed JSON is read back

Reading the tokens of a value, its members as they are written, leaves the state in which that
value, tidied, is complete, as long as the limit of nesting leaves room for its depth.  With the
tokens of the printed text this makes reading a left inverse of printing on ordered values whose
numbers are integers.
-/

set_option autoImplicit false

namespace LanguageClient.Json

variable {limit : Nat}

theorem readAll_cons {p q : Parsing} {t : Token} (h : Parsing.read limit p t = some q)
    (ts : List Token) :
    Parsing.readAll limit p (t :: ts) = Parsing.readAll limit q ts := by
  simp [Parsing.readAll, List.foldlM_cons, h]

/-- No value begins with the end of an array, so the first item is read like any value. -/
theorem readAll_firstItem (levels : List Level) (v : Json) (ts : List Token) :
    Parsing.readAll limit ⟨levels, .firstItem⟩ (tokens v ++ ts) =
      Parsing.readAll limit ⟨levels, .value⟩ (tokens v ++ ts) := by
  cases v <;> rfl

theorem read_openArray {levels : List Level} (room : levels.length < limit) :
    Parsing.read limit ⟨levels, .value⟩ .openArray = some ⟨.array [] :: levels, .firstItem⟩ := by
  simp [Parsing.read, Parsing.startValue, Parsing.enter, room]

theorem read_openObject {levels : List Level} (room : levels.length < limit) :
    Parsing.read limit ⟨levels, .value⟩ .openObject = some ⟨levels, .firstKey []⟩ := by
  simp [Parsing.read, Parsing.startValue, Parsing.enter, room]

mutual

/-- The tokens of a value complete it, tidied. -/
theorem readAll_tokens : ∀ {v : Json} {levels : List Level} {ts : List Token},
    levels.length + depth v ≤ limit →
    Parsing.readAll limit ⟨levels, .value⟩ (tokens v ++ ts) =
      Parsing.readAll limit ⟨levels, .next (tidy v)⟩ ts
  | .null, _, _, _ | .bool _, _, _, _ | .int _, _, _, _ | .float _, _, _, _ | .str _, _, _, _ => by
    simp only [tokens, List.singleton_append]
    exact readAll_cons rfl _
  | .arr items, levels, ts, room => by
    simp only [depth] at room
    rw [tokens, List.cons_append, List.cons_append, List.append_assoc, List.singleton_append,
      readAll_cons (read_openArray (by omega))]
    cases items with
    | nil => exact readAll_cons rfl _
    | cons v items =>
      have first : ∀ ts, Parsing.readAll limit ⟨.array [] :: levels, .firstItem⟩
          (tokensItems (v :: items) ++ ts) =
            Parsing.readAll limit ⟨.array [] :: levels, .value⟩
              (tokensItems (v :: items) ++ ts) := by
        intro ts
        cases items with
        | nil => exact readAll_firstItem _ v ts
        | cons w items =>
          rw [tokensItems, List.append_assoc]
          · exact readAll_firstItem _ v _
          · simp
      rw [first, readAll_tokensItems (by omega) (by simp)]
      rfl
  | .obj members, levels, ts, room => by
    simp only [depth] at room
    rw [tokens, List.cons_append, List.cons_append, List.append_assoc, List.singleton_append,
      readAll_cons (read_openObject (by omega))]
    cases members with
    | nil => exact readAll_cons rfl _
    | cons e members =>
      have first : ∀ ts, Parsing.readAll limit ⟨levels, .firstKey []⟩
          (tokensMembers (e :: members) ++ ts) =
            Parsing.readAll limit ⟨levels, .key []⟩ (tokensMembers (e :: members) ++ ts) := by
        intro ts
        cases members with
        | nil => rfl
        | cons d members => rfl
      rw [first, readAll_tokensMembers (by omega) (by simp)]
      rfl

/-- The tokens of items and the end of the array complete the array. -/
theorem readAll_tokensItems : ∀ {items acc : List Json} {levels : List Level} {ts : List Token},
    levels.length + (depthItems items + 1) ≤ limit → items ≠ [] →
    Parsing.readAll limit ⟨.array acc :: levels, .value⟩
        (tokensItems items ++ .closeArray :: ts) =
      Parsing.readAll limit ⟨levels, .next (.arr (acc.reverse ++ tidyItems items))⟩ ts
  | [], _, _, _, _, nonempty => absurd rfl nonempty
  | [v], acc, levels, ts, room, _ => by
    simp only [depthItems] at room
    rw [tokensItems, readAll_tokens (by simp only [List.length_cons]; omega),
      readAll_cons (q := ⟨levels, .next (.arr (acc.reverse ++ [tidy v]))⟩)]
    · rfl
    · simp [Parsing.read, Parsing.continueLevel]
  | v :: w :: items, acc, levels, ts, room, _ => by
    rw [depthItems] at room
    rw [tokensItems, List.append_assoc, List.cons_append,
      readAll_tokens (by simp only [List.length_cons]; omega),
      readAll_cons (q := ⟨.array (tidy v :: acc) :: levels, .value⟩) rfl,
      readAll_tokensItems (by omega) (by simp)]
    · simp [tidyItems]
    · simp

/-- The tokens of members and the end of the object complete the object, in which of several
members with one key the last counts. -/
theorem readAll_tokensMembers : ∀ {members acc : List (String × Json)} {levels : List Level}
    {ts : List Token}, levels.length + (depthMembers members + 1) ≤ limit → members ≠ [] →
    Parsing.readAll limit ⟨levels, .key acc⟩ (tokensMembers members ++ .closeObject :: ts) =
      Parsing.readAll limit ⟨levels, .next (.obj
        ((tidyMembers members).foldl (fun es e => Entries.put e.1 e.2 es) acc))⟩ ts
  | [], _, _, _, _, nonempty => absurd rfl nonempty
  | [(k, v)], acc, levels, ts, room, _ => by
    simp only [depthMembers] at room
    rw [tokensMembers, List.cons_append, List.cons_append,
      readAll_cons (q := ⟨levels, .colon acc k⟩) rfl,
      readAll_cons (q := ⟨.object acc k :: levels, .value⟩) rfl,
      readAll_tokens (by simp only [List.length_cons]; omega),
      readAll_cons (q := ⟨levels, .next (.obj (Entries.put k (tidy v) acc))⟩) rfl]
    rfl
  | (k, v) :: e :: members, acc, levels, ts, room, _ => by
    rw [depthMembers] at room
    rw [tokensMembers, List.append_assoc, List.cons_append, List.cons_append, List.cons_append,
      readAll_cons (q := ⟨levels, .colon acc k⟩) rfl,
      readAll_cons (q := ⟨.object acc k :: levels, .value⟩) rfl,
      readAll_tokens (by simp only [List.length_cons]; omega),
      readAll_cons (q := ⟨levels, .key (Entries.put k (tidy v) acc)⟩) rfl,
      readAll_tokensMembers (by omega) (by simp)]
    · rfl
    · simp

end

/-- The tokens of a value that is not nested too deeply are read as the value, tidied. -/
theorem result?_of_tokens {v : Json} (room : depth v ≤ limit) :
    (Parsing.readAll limit ⟨[], .value⟩ (tokens v)).bind Parsing.result? = some (tidy v) := by
  rw [← List.append_nil (tokens v), readAll_tokens (by simpa using room)]
  rfl

/-- The compact text of a value is read as the value, if it is not nested too deeply. -/
theorem readChars?_chars {v : Json} (integral : Integral v) (ordered : Ordered v)
    (room : depth v ≤ limit) : readChars? limit (chars v) = some v := by
  have read := result?_of_tokens room
  rw [tidy_of_ordered ordered] at read
  simpa [readChars?, tokens?_chars integral] using read

/-- The bytes of the compact text of a value are read as the value. -/
theorem readBytes?_text {v : Json} (integral : Integral v) (ordered : Ordered v)
    (room : depth v ≤ nestingLimit) : readBytes? (Utf8.encode v.text) = some v := by
  rw [readBytes?, Utf8.chars?_encode, Option.bind_some, text, String.toList_ofList,
    readChars?_chars integral ordered room]

end LanguageClient.Json
