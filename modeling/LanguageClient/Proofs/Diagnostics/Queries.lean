import LanguageClient.Proofs.Diagnostics.History
import LanguageClient.Proofs.Text.Utf8
import Mathlib.Data.Set.Card

/-!
# The queries of a store agree

The diagnostics of a store can be counted in several ways: in all, by document, by severity and
by the lines that are shown.  All of them count the same diagnostics, and a document whose
entry is only kept for its version is not counted at all.
-/

set_option autoImplicit false

namespace LanguageClient.Diagnostics.Store

variable {s : Store} {u : String} {ds : List Diagnostic}

/-- All diagnostics, document by document. -/
def diagnostics (s : Store) : List Diagnostic := s.toList.flatMap Prod.snd

/-! ## Documents with diagnostics -/

/-- In an ordered store the documents listed are those that show something. -/
theorem mem_toList_iff (order : s.entries.Increasing) :
    (u, ds) ∈ s.toList ↔ s.get u = ds ∧ ds ≠ [] := by
  unfold toList get
  constructor
  · intro listed
    obtain ⟨⟨v, entry⟩, held, eq⟩ := List.mem_map.mp listed
    obtain ⟨rfl, rfl⟩ := Prod.mk.inj eq
    obtain ⟨mem, some⟩ := List.mem_filter.mp held
    rw [Entries.find?_of_mem order mem]
    exact ⟨rfl, by simpa using some⟩
  · rintro ⟨shown, some⟩
    cases found : s.entries.find? u with
    | none =>
      rw [found] at shown
      exact absurd shown.symm some
    | some entry =>
      rw [found] at shown
      have same : entry.diagnostics = ds := shown
      subst same
      have held := Entries.mem_of_find? found
      refine List.mem_map.mpr ⟨(u, entry), List.mem_filter.mpr ⟨held, ?_⟩, rfl⟩
      simpa using some

/-- The documents are listed in the order of the store. -/
theorem toList_sublist (s : Store) : (s.toList.map Prod.fst).Sublist s.entries.keys := by
  have fst : s.toList.map Prod.fst =
      (s.entries.filter fun e => !e.2.diagnostics.isEmpty).map Prod.fst := by
    simp [toList]
  rw [fst]
  exact List.filter_sublist.map Prod.fst

/-- Documents come in the order of the bytes of their URIs. -/
theorem toList_pairwise (order : s.entries.Increasing) :
    s.toList.Pairwise fun a b => Utf8.encode a.1 < Utf8.encode b.1 := by
  have keys : (s.toList.map Prod.fst).Pairwise (· < ·) := order.sublist s.toList_sublist
  exact (List.pairwise_map.mp keys).imp Utf8.encode_lt_encode

theorem fileCount_eq_ncard (order : s.entries.Increasing) :
    s.fileCount = {u | s.get u ≠ []}.ncard := by
  have nodup : (s.toList.map Prod.fst).Nodup :=
    (order.sublist s.toList_sublist).imp String.ne_of_lt
  have listed : {u | s.get u ≠ []} = ((s.toList.map Prod.fst).toFinset : Set String) := by
    ext u
    simp only [Set.mem_ofPred_eq, List.coe_toFinset, List.mem_map, Prod.exists,
      exists_and_right, exists_eq_right, mem_toList_iff order]
    constructor
    · intro some
      exact ⟨_, rfl, some⟩
    · rintro ⟨ds, rfl, some⟩
      exact some
  rw [listed, Set.ncard_coe_finset, List.toFinset_card_of_nodup nodup, List.length_map, fileCount]

/-! ## Diagnostics -/

/-- Entries without diagnostics add nothing. -/
theorem diagnostics_eq (s : Store) :
    s.diagnostics = s.entries.flatMap fun e => e.2.diagnostics := by
  unfold diagnostics toList
  generalize s.entries = entries
  induction entries with
  | nil => rfl
  | cons e entries ih =>
    rw [List.filter_cons]
    split
    · rw [List.map_cons, List.flatMap_cons, ih, List.flatMap_cons]
    · rename_i without
      have empty : e.2.diagnostics = [] := by simpa using without
      rw [ih, List.flatMap_cons, empty, List.nil_append]

theorem totalCount_eq (s : Store) : s.totalCount = s.diagnostics.length := by
  have fold : ∀ (entries : List (String × Entry)) (n : Nat),
      entries.foldl (fun n e => n + e.2.diagnostics.length) n =
        n + (entries.flatMap fun e => e.2.diagnostics).length := by
    intro entries
    induction entries with
    | nil => intro n; rfl
    | cons e entries ih =>
      intro n
      rw [List.foldl_cons, ih, List.flatMap_cons, List.length_append, Nat.add_assoc]
  rw [totalCount, fold, Nat.zero_add, diagnostics_eq]

/-- Every diagnostic counts for exactly one severity. -/
theorem length_eq_severities (ds : List Diagnostic) :
    ds.length = (ds.filter (·.effectiveSeverity = .error)).length +
      (ds.filter (·.effectiveSeverity = .warning)).length +
      (ds.filter (·.effectiveSeverity = .information)).length +
      (ds.filter (·.effectiveSeverity = .hint)).length := by
  induction ds with
  | nil => rfl
  | cons d ds ih =>
    cases severity : d.effectiveSeverity <;> simp [severity] <;> omega

theorem countBySeverity_eq (s : Store) (severity : Severity) :
    s.countBySeverity severity =
      (s.diagnostics.filter (·.effectiveSeverity = severity)).length := by
  rw [countBySeverity, diagnostics_eq]

theorem length_lines (s : Store) : s.lines.length = s.diagnostics.length := by
  simp [lines, diagnostics, documentLines, List.length_flatMap]

/-! ## The law of queries -/

/-- Over every history the store counts the same diagnostics in every way: in all, by document,
by line and by severity.  It lists exactly the documents that show something, each once and in
the order of the bytes of their URIs, and counts these as files; an entry without diagnostics,
kept for its version, is no file; and there is nothing to remark exactly when there is no
diagnostic. -/
theorem queries_agree (ps : List Publication) :
    (replay ps).totalCount = ((replay ps).toList.map fun e => e.2.length).sum ∧
    (replay ps).totalCount = (replay ps).lines.length ∧
    (replay ps).totalCount = (replay ps).countBySeverity .error +
      (replay ps).countBySeverity .warning + (replay ps).countBySeverity .information +
      (replay ps).countBySeverity .hint ∧
    (∀ u ds, (u, ds) ∈ (replay ps).toList ↔ (replay ps).get u = ds ∧ ds ≠ []) ∧
    (replay ps).toList.Pairwise (fun a b => Utf8.encode a.1 < Utf8.encode b.1) ∧
    (replay ps).fileCount = {u | (replay ps).get u ≠ []}.ncard ∧
    (∀ u version, (replay ps).entries.find? u = some ⟨version, []⟩ →
      ∀ ds, (u, ds) ∉ (replay ps).toList) ∧
    ((replay ps).summary = none ↔ (replay ps).totalCount = 0) := by
  have order := increasing_replay ps
  refine ⟨?_, ?_, ?_, fun u ds => mem_toList_iff order, toList_pairwise order,
    fileCount_eq_ncard order, fun u version cleared ds listed => ?_, ?_⟩
  · rw [totalCount_eq, diagnostics, List.length_flatMap]
  · rw [totalCount_eq, length_lines]
  · simp only [countBySeverity_eq, totalCount_eq]
    exact length_eq_severities _
  · obtain ⟨shown, some⟩ := (mem_toList_iff order).mp listed
    rw [get, cleared] at shown
    exact some shown.symm
  · unfold summary
    split <;> simp_all

/-- The document that was cleared keeps its version; only the other one counts, as one file with
one diagnostic. -/
theorem queries_agree_cleared :
    (replay clearing).entries.find? "file:///a.py" = some ⟨some 4, []⟩ ∧
      (∀ ds, ("file:///a.py", ds) ∉ (replay clearing).toList) ∧
      ("file:///b.py", [remark]) ∈ (replay clearing).toList ∧
      (replay clearing).totalCount = 1 ∧ (replay clearing).summary ≠ none := by
  obtain ⟨total, -, -, listed, -, -, kept, silent⟩ := queries_agree clearing
  have cleared : (replay clearing).entries.find? "file:///a.py" = some ⟨some 4, []⟩ := by
    decide +kernel
  have one : (replay clearing).totalCount = 1 := by
    rw [total]
    decide +kernel
  refine ⟨cleared, kept _ _ cleared, (listed _ _).mpr ⟨by decide +kernel, by simp⟩, one, ?_⟩
  rw [Ne, silent, one]
  decide

end LanguageClient.Diagnostics.Store
