import LanguageClient.Entries
import Mathlib.Data.List.Induction

/-!
# Laws of entries

What putting a value under a key and removing it do to lookups, to membership and to the
order; entries in order are determined by what is found in them.
-/

set_option autoImplicit false

namespace LanguageClient.Entries

variable {α : Type} {key other : String} {value : α} {entries : Entries α}

/-- The value just put under a key is found there. -/
theorem find?_put_same (key : String) (value : α) (entries : Entries α) :
    find? key (put key value entries) = some value := by
  induction entries with
  | nil => simp [put, find?]
  | cons e entries ih =>
    obtain ⟨k, v⟩ := e
    by_cases less : key < k
    · simp [put, less, find?]
    · by_cases same : k = key <;> simp [put, less, same, find?, ih]

/-- Other keys keep their values. -/
theorem find?_put_ne (different : other ≠ key) :
    find? other (put key value entries) = find? other entries := by
  induction entries with
  | nil => simp [put, find?, different.symm]
  | cons e entries ih =>
    obtain ⟨k, v⟩ := e
    by_cases less : key < k
    · simp [put, less, find?, different.symm]
    · by_cases same : k = key
      · subst same
        simp [put, find?, different.symm]
      · simp [put, less, same, find?, ih]

/-- What is found under a key is held under it. -/
theorem mem_of_find? (found : find? key entries = some value) : (key, value) ∈ entries := by
  induction entries with
  | nil => cases found
  | cons e entries ih =>
    obtain ⟨k, v⟩ := e
    rw [find?] at found
    split at found
    · rename_i same
      rw [same, Option.some.inj found]
      exact List.mem_cons_self
    · exact List.mem_cons_of_mem _ (ih found)

theorem ofList_append_singleton (es : List (String × α)) (e : String × α) :
    ofList (es ++ [e]) = put e.1 e.2 (ofList es) := by
  simp [ofList]

/-- Of the values put under one key the last is found. -/
theorem find?_ofList (key : String) (es : List (String × α)) :
    find? key (ofList es) = find? key es.reverse := by
  induction es using List.reverseRecOn with
  | nil => rfl
  | append_singleton es e ih =>
    obtain ⟨k, v⟩ := e
    rw [List.reverse_append, List.reverse_singleton, List.singleton_append,
      ofList_append_singleton]
    by_cases same : k = key
    · subst same
      simp [find?_put_same, find?]
    · rw [find?_put_ne (Ne.symm same), ih, find?, if_neg same]

/-- What is held after putting a value is that value or was held before. -/
theorem mem_put {e : String × α} (h : e ∈ put key value entries) :
    e = (key, value) ∨ e ∈ entries := by
  induction entries with
  | nil => exact .inl (by simpa [put] using h)
  | cons first entries ih =>
    obtain ⟨k, v⟩ := first
    unfold put at h
    split at h
    · simpa using h
    · split at h
      · rcases List.mem_cons.mp h with now | before
        · exact .inl now
        · exact .inr (List.mem_cons_of_mem _ before)
      · rcases List.mem_cons.mp h with rfl | later
        · exact .inr List.mem_cons_self
        · exact (ih later).imp id (List.mem_cons_of_mem _)

/-- Only what was put is held. -/
theorem mem_ofList {e : String × α} {es : List (String × α)} (h : e ∈ ofList es) : e ∈ es := by
  induction es using List.reverseRecOn with
  | nil => simp [ofList] at h
  | append_singleton es last ih =>
    rw [ofList_append_singleton] at h
    rcases mem_put h with now | before
    · simp [now]
    · exact List.mem_append_left _ (ih before)

/-- Putting a value keeps the keys in order. -/
theorem increasing_put (h : Increasing entries) : Increasing (put key value entries) := by
  induction entries with
  | nil => simp [put, Increasing, keys]
  | cons first entries ih =>
    obtain ⟨k, v⟩ := first
    have order : (∀ l ∈ keys entries, k < l) ∧ Increasing entries :=
      List.pairwise_cons.mp h
    unfold put
    split
    · rename_i less
      refine List.pairwise_cons.mpr ⟨fun l hl => ?_, h⟩
      rcases List.mem_cons.mp hl with rfl | hl
      · exact less
      · exact String.lt_trans less (order.1 l hl)
    · rename_i notLess
      split
      · rename_i same
        subst same
        exact List.pairwise_cons.mpr order
      · rename_i different
        have less : k < key :=
          Std.lt_of_le_of_ne (String.not_lt.mp notLess) different
        refine List.pairwise_cons.mpr ⟨fun l hl => ?_, ih order.2⟩
        obtain ⟨e, he, rfl⟩ := List.mem_map.mp hl
        rcases mem_put he with rfl | before
        · exact less
        · exact order.1 e.1 (List.mem_map_of_mem before)

theorem increasing_ofList (es : List (String × α)) : Increasing (ofList es) := by
  induction es using List.reverseRecOn with
  | nil => exact List.Pairwise.nil
  | append_singleton es last ih =>
    rw [ofList_append_singleton]
    exact increasing_put ih

/-- A key above all others goes to the end. -/
theorem put_of_lt (above : ∀ k ∈ keys entries, k < key) :
    put key value entries = entries ++ [(key, value)] := by
  induction entries with
  | nil => rfl
  | cons first entries ih =>
    obtain ⟨k, v⟩ := first
    have less : k < key := above k List.mem_cons_self
    have rest : put key value entries = entries ++ [(key, value)] :=
      ih fun l hl => above l (List.mem_cons_of_mem k hl)
    simp [put, String.lt_asymm less, String.ne_of_lt less, rest]

/-- What is in order already stays as it is. -/
theorem ofList_of_increasing (h : Increasing entries) : ofList entries = entries := by
  induction entries using List.reverseRecOn with
  | nil => rfl
  | append_singleton es last ih =>
    simp only [Increasing, keys, List.map_append, List.pairwise_append] at h
    rw [ofList_append_singleton, ih h.1]
    exact put_of_lt fun k hk => h.2.2 k hk last.1 (by simp)

/-! ## Removing -/

/-- A key that is not held has no value. -/
theorem find?_eq_none (absent : key ∉ keys entries) : find? key entries = none := by
  cases found : find? key entries with
  | none => rfl
  | some value => exact absurd (List.mem_map_of_mem (mem_of_find? found)) absent

/-- The keys are those that something is found under. -/
theorem mem_keys_iff : key ∈ keys entries ↔ (find? key entries).isSome = true := by
  refine ⟨fun held => ?_, fun found => ?_⟩
  · induction entries with
    | nil => cases held
    | cons e entries ih =>
      rw [find?]
      split
      · rfl
      · rename_i other
        rcases List.mem_cons.mp held with same | later
        · exact absurd same.symm other
        · exact ih later
  · by_contra absent
    rw [find?_eq_none absent] at found
    cases found

/-- In order, every value is found under its key. -/
theorem find?_of_mem (h : Increasing entries) (held : (key, value) ∈ entries) :
    find? key entries = some value := by
  induction entries with
  | nil => cases held
  | cons e entries ih =>
    obtain ⟨above, rest⟩ := List.pairwise_cons.mp h
    rcases List.mem_cons.mp held with rfl | later
    · simp [find?]
    · have less : e.1 < key := above key (List.mem_map_of_mem later)
      rw [find?, if_neg (String.ne_of_lt less), ih rest later]

/-- A removed key has no value. -/
theorem find?_remove_same (key : String) (entries : Entries α) :
    find? key (remove key entries) = none := by
  apply find?_eq_none
  intro held
  obtain ⟨e, he, same⟩ := List.mem_map.mp held
  simp [remove, same] at he

/-- Other keys keep their values when one is removed. -/
theorem find?_remove_ne (different : other ≠ key) :
    find? other (remove key entries) = find? other entries := by
  induction entries with
  | nil => rfl
  | cons e entries ih =>
    obtain ⟨k, v⟩ := e
    by_cases same : k = key
    · have away : remove key ((k, v) :: entries) = remove key entries := by
        simp [remove, same]
      rw [away, ih, find?, if_neg fun h => different (h.symm.trans same)]
    · have kept : remove key ((k, v) :: entries) = (k, v) :: remove key entries := by
        simp [remove, same]
      rw [kept, find?, find?, ih]

/-- Removing a key keeps the others in order. -/
theorem increasing_remove (h : Increasing entries) : Increasing (remove key entries) :=
  List.Pairwise.sublist (List.Sublist.map _ List.filter_sublist) h

/-- The values under all keys determine entries in order. -/
theorem eq_of_find? {entries' : Entries α} (h : Increasing entries) (h' : Increasing entries')
    (agree : ∀ key, find? key entries = find? key entries') : entries = entries' := by
  induction entries generalizing entries' with
  | nil =>
    cases entries' with
    | nil => rfl
    | cons e' rest' =>
      have := agree e'.1
      simp [find?] at this
  | cons e rest ih =>
    obtain ⟨k, v⟩ := e
    obtain ⟨above, order⟩ := List.pairwise_cons.mp h
    cases entries' with
    | nil =>
      have := agree k
      simp [find?] at this
    | cons e' rest' =>
      obtain ⟨k', v'⟩ := e'
      obtain ⟨above', order'⟩ := List.pairwise_cons.mp h'
      have here : find? k rest = none :=
        find?_eq_none fun held => String.lt_irrefl k (above k held)
      have here' : find? k' rest' = none :=
        find?_eq_none fun held => String.lt_irrefl k' (above' k' held)
      have key_eq : k = k' := by
        -- otherwise the lesser key is held by one list only
        by_contra different
        have atK : find? k rest' = some v := by
          have := agree k
          simpa [find?, Ne.symm different] using this.symm
        have atK' : find? k' rest = some v' := by
          have := agree k'
          simpa [find?, different] using this
        have less : k < k' := above k' (List.mem_map_of_mem (mem_of_find? atK'))
        have more : k' < k := above' k (List.mem_map_of_mem (mem_of_find? atK))
        exact String.lt_asymm less more
      subst key_eq
      have value_eq : v = v' := by simpa [find?] using agree k
      have rest_eq : rest = rest' := by
        apply ih order order'
        intro key
        by_cases same : k = key
        · subst same
          rw [here, here']
        · simpa [find?, same] using agree key
      rw [value_eq, rest_eq]

/-! ## Other values under the same keys -/

variable {β : Type}

theorem find?_map (key : String) (f : α → β) (entries : Entries α) :
    find? key (entries.map fun (k, v) => (k, f v)) = (find? key entries).map f := by
  induction entries with
  | nil => rfl
  | cons e entries ih => by_cases same : e.1 = key <;> simp [find?, same, ih]

theorem increasing_map (f : α → β) (h : Increasing entries) :
    Increasing (entries.map fun (k, v) => (k, f v)) := by
  have same : keys (entries.map fun (k, v) => (k, f v)) = keys entries := by simp [keys]
  rw [Increasing, same]
  exact h

/-! ## Decoding -/

variable {decode : α → Option β} {members : Entries α} {decoded : Entries β}

theorem keys_of_mapM (h : members.mapM (fun (key, v) => (decode v).map (key, ·)) = some decoded) :
    keys decoded = keys members := by
  induction members generalizing decoded with
  | nil =>
    obtain rfl : [] = decoded := by simpa using h
    rfl
  | cons e members ih =>
    simp only [List.mapM_cons, Option.bind_eq_bind, Option.bind_eq_some_iff, Option.map_eq_some_iff,
      Option.pure_def] at h
    obtain ⟨_, ⟨b, _, rfl⟩, rest, more, eq⟩ := h
    obtain rfl := Option.some.inj eq
    simpa [keys] using ih more

/-- What is found in decoded entries is the decoded value. -/
theorem find?_of_mapM (h : members.mapM (fun (key, v) => (decode v).map (key, ·)) = some decoded)
    (key : String) :
    (find? key members = none ∧ find? key decoded = none) ∨
      ∃ v b, find? key members = some v ∧ decode v = some b ∧ find? key decoded = some b := by
  induction members generalizing decoded with
  | nil =>
    obtain rfl : [] = decoded := by simpa using h
    exact .inl ⟨rfl, rfl⟩
  | cons e members ih =>
    simp only [List.mapM_cons, Option.bind_eq_bind, Option.bind_eq_some_iff, Option.map_eq_some_iff,
      Option.pure_def] at h
    obtain ⟨_, ⟨b, read, rfl⟩, rest, more, eq⟩ := h
    obtain rfl := Option.some.inj eq
    by_cases same : e.1 = key
    · exact .inr ⟨e.2, b, by simp [find?, same], read, by simp [find?, same]⟩
    · simpa [find?, same] using ih more

theorem exists_mapM (reads : ∀ e ∈ members, ∃ b, decode e.2 = some b) :
    ∃ decoded, members.mapM (fun (key, v) => (decode v).map (key, ·)) = some decoded := by
  induction members with
  | nil => exact ⟨[], rfl⟩
  | cons e members ih =>
    obtain ⟨b, read⟩ := reads e List.mem_cons_self
    obtain ⟨rest, more⟩ := ih fun e later => reads e (List.mem_cons_of_mem _ later)
    exact ⟨(e.1, b) :: rest, by simp [List.mapM_cons, read, more]⟩

/-- Entries in order decode to entries in order exactly when every value decodes to the one
under the same key. -/
theorem mapM_eq_some_iff (increasing : Increasing members) :
    members.mapM (fun (key, v) => (decode v).map (key, ·)) = some decoded ↔
      Increasing decoded ∧ ∀ key,
        match find? key members with
        | none => find? key decoded = none
        | some v => ∃ b, decode v = some b ∧ find? key decoded = some b := by
  constructor
  · intro h
    refine ⟨?_, fun key => ?_⟩
    · rw [Increasing, keys_of_mapM h]
      exact increasing
    · rcases find?_of_mapM h key with ⟨none, absent⟩ | ⟨v, b, found, read, there⟩
      · rw [none]
        exact absent
      · rw [found]
        exact ⟨b, read, there⟩
  · rintro ⟨order, agree⟩
    -- Every value decodes, because it is the one that is found under its key.
    have reads : ∀ e ∈ members, ∃ b, decode e.2 = some b := by
      intro e he
      have here := agree e.1
      rw [find?_of_mem increasing he] at here
      obtain ⟨b, read, -⟩ := here
      exact ⟨b, read⟩
    obtain ⟨result, decodes⟩ := exists_mapM reads
    have same : result = decoded := by
      apply eq_of_find? _ order
      · intro key
        have here := agree key
        rcases find?_of_mapM decodes key with ⟨none, absent⟩ | ⟨v, b, found, read, there⟩
        · rw [none] at here
          rw [absent, here]
        · rw [found] at here
          obtain ⟨b', read', there'⟩ := here
          rw [there, there', ← read, ← read']
      · rw [Increasing, keys_of_mapM decodes]
        exact increasing
    rw [decodes, same]

end LanguageClient.Entries
