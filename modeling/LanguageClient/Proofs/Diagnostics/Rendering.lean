import LanguageClient.Proofs.Diagnostics.Queries
import Mathlib.Data.List.Forall2

/-!
# The lines of a store

What the lines of a store have to be is said without sorting: one line for each diagnostic,
documents in the order of the bytes of their URIs, and within a document the diagnostics by
their starts, those with one start as they were published (`Shows`).  This leaves exactly one
list of lines, and it is the one that is shown.
-/

set_option autoImplicit false

namespace LanguageClient

/-- Whether a place in a document comes no later than another. -/
def Position.NotAfter (a b : Position) : Prop :=
  a.line < b.line ∨ a.line = b.line ∧ a.character ≤ b.character

theorem Position.NotAfter.antisymm {a b : Position} (h : a.NotAfter b) (h' : b.NotAfter a) :
    a = b := by
  obtain ⟨line, character⟩ := a
  obtain ⟨line', character'⟩ := b
  simp only [NotAfter] at h h'
  simp only [mk.injEq]
  omega

namespace Diagnostics.Store

variable {s : Store} {uri text text' : String} {d : Diagnostic} {published shown : List Diagnostic}

/-- What stands for a document in a line: the path that its URI names, or else the URI. -/
inductive StandsFor (uri : String) : String → Prop
  | path {p : Path} (names : Uri.toPath? uri = some p) : StandsFor uri p.display
  | uri (names : Uri.toPath? uri = none) : StandsFor uri uri

/-- How the line of a diagnostic reads.  Line and character are counted from one, in 32 bits;
a diagnostic without a severity is an error. -/
def Reads (uri : String) (d : Diagnostic) (text : String) : Prop :=
  ∃ (place : String) (line character : UInt32),
    StandsFor uri place ∧
    line.toNat = d.span.start.line + 1 ∧ character.toNat = d.span.start.character + 1 ∧
    text = place ++ ":" ++ toString line ++ ":" ++ toString character ++ ": " ++
      d.severity.elim "error" Severity.label ++ ": " ++ d.message

/-- Whether the diagnostics of a document are in the order of their starts, those with one
start as they were published. -/
structure Arranged (published shown : List Diagnostic) : Prop where
  perm : shown.Perm published
  ordered : shown.Pairwise fun a b => a.span.start.NotAfter b.span.start
  stable : ∀ place, shown.filter (·.span.start = place) = published.filter (·.span.start = place)

/-- Whether lines show all that a store holds: they read as the diagnostics of documents in the
order of the bytes of their URIs, arranged within each document. -/
def Shows (s : Store) (lines : List String) : Prop :=
  ∃ order : List (String × Diagnostic),
    List.Forall₂ (fun e line => Reads e.1 e.2 line) order lines ∧
    order.Pairwise (fun a b => Utf8.encode a.1 ≤ Utf8.encode b.1) ∧
    ∀ uri, Arranged (s.get uri) ((order.filter (·.1 = uri)).map Prod.snd)

/-! ## One line -/

theorem standsFor_location (uri : String) : StandsFor uri (location uri) := by
  unfold location
  cases names : Uri.toPath? uri with
  | none => exact .uri names
  | some p => exact .path names

theorem StandsFor.eq_location (h : StandsFor uri text) : text = location uri := by
  cases h with
  | path names => rw [location, names, Option.map_some, Option.getD_some]
  | uri names => rw [location, names, Option.map_none, Option.getD_none]

theorem reads_line (uri : String) (line : d.span.start.line < 2 ^ 32 - 1)
    (character : d.span.start.character < 2 ^ 32 - 1) :
    Reads uri d (Store.line (location uri) d) := by
  have back : ∀ n < 2 ^ 32 - 1, (UInt32.ofNat (n + 1)).toNat = n + 1 := by
    intro n small
    rw [UInt32.toNat_ofNat', Nat.mod_eq_of_lt (by omega)]
  refine ⟨location uri, .ofNat (d.span.start.line + 1), .ofNat (d.span.start.character + 1),
    standsFor_location uri, back _ line, back _ character, ?_⟩
  have label : d.effectiveSeverity.label = d.severity.elim "error" Severity.label := by
    rw [Diagnostic.effectiveSeverity]
    cases d.severity <;> rfl
  rw [Store.line, label]
  show _ = _ ++ toString (UInt32.toNat _) ++ _ ++ toString (UInt32.toNat _) ++ _ ++ _ ++ _ ++ _
  rw [back _ line, back _ character]

/-- The line of a diagnostic reads in one way only. -/
theorem Reads.eq (h : Reads uri d text) (h' : Reads uri d text') : text = text' := by
  obtain ⟨place, line, character, stands, hline, hcharacter, rfl⟩ := h
  obtain ⟨place', line', character', stands', hline', hcharacter', rfl⟩ := h'
  obtain rfl : line = line' := UInt32.toNat_inj.mp (hline.trans hline'.symm)
  obtain rfl : character = character' := UInt32.toNat_inj.mp (hcharacter.trans hcharacter'.symm)
  rw [stands.eq_location, stands'.eq_location]

/-! ## Sorted lists -/

/-- A list that is sorted by a key is known from its items under each key. -/
theorem eq_of_filter_eq {α κ : Type} [DecidableEq κ] {key : α → κ} {le : κ → κ → Prop}
    (antisymm : ∀ {a b}, le a b → le b a → a = b) {xs ys : List α}
    (hx : xs.Pairwise fun a b => le (key a) (key b))
    (hy : ys.Pairwise fun a b => le (key a) (key b))
    (same : ∀ k, xs.filter (key · = k) = ys.filter (key · = k)) : xs = ys := by
  induction xs generalizing ys with
  | nil =>
    cases ys with
    | nil => rfl
    | cons y ys =>
      have := same (key y)
      simp at this
  | cons x xs ih =>
    cases ys with
    | nil =>
      have := same (key x)
      simp at this
    | cons y ys =>
      obtain ⟨afterX, restX⟩ := List.pairwise_cons.mp hx
      obtain ⟨afterY, restY⟩ := List.pairwise_cons.mp hy
      -- Each of the first items is in the other list, so neither key is before the other.
      have keys : key x = key y := by
        by_contra different
        have inX : y ∈ xs.filter (key · = key y) := by
          have := same (key y)
          rw [List.filter_cons_of_neg (by simpa using different)] at this
          simp [this]
        have inY : x ∈ ys.filter (key · = key x) := by
          have := same (key x)
          rw [List.filter_cons_of_neg (l := ys) (by simpa using Ne.symm different)] at this
          simp [← this]
        exact different
          (antisymm (afterX y (List.mem_of_mem_filter inX)) (afterY x (List.mem_of_mem_filter inY)))
      have first : x = y := by
        have := same (key x)
        simp only [List.filter_cons, keys, decide_true, if_true] at this
        exact (List.cons.inj this).1
      subst first
      congr 1
      refine ih restX restY fun k => ?_
      have := same k
      simp only [List.filter_cons] at this
      split at this
      · exact (List.cons.inj this).2
      · exact this

/-! ## One document -/

theorem startsBefore_iff (a b : Diagnostic) :
    startsBefore a b = true ↔ a.span.start.NotAfter b.span.start := by
  simp [startsBefore, Position.NotAfter]

/-- Sorting by start arranges the diagnostics of a document. -/
theorem arranged_mergeSort (published : List Diagnostic) :
    Arranged published (published.mergeSort startsBefore) := by
  have trans : ∀ a b c, startsBefore a b = true → startsBefore b c = true →
      startsBefore a c = true := by
    intro a b c
    simp only [startsBefore_iff, Position.NotAfter]
    omega
  have total : ∀ a b, (startsBefore a b || startsBefore b a) = true := by
    intro a b
    simp only [Bool.or_eq_true, startsBefore_iff, Position.NotAfter]
    omega
  have perm := List.mergeSort_perm published startsBefore
  refine ⟨perm, ?_, fun place => ?_⟩
  · exact (List.pairwise_mergeSort trans total published).imp fun h => (startsBefore_iff _ _).mp h
  · -- Those with one start are in order already, so they stay a sublist.
    have tied : (published.filter (·.span.start = place)).Pairwise
        (fun a b => startsBefore a b = true) := by
      rw [List.pairwise_filter]
      refine List.pairwise_of_forall fun a b => ?_
      simp only [decide_eq_true_eq, startsBefore_iff, Position.NotAfter]
      rintro rfl same
      simp [same]
    have sub := (List.sublist_mergeSort trans total tied List.filter_sublist).filter
      (·.span.start = place)
    rw [List.filter_filter] at sub
    simp only [Bool.and_self] at sub
    exact (sub.eq_of_length (perm.filter _).length_eq.symm).symm

theorem Arranged.eq {other : List Diagnostic} (h : Arranged published shown)
    (h' : Arranged published other) : shown = other :=
  eq_of_filter_eq Position.NotAfter.antisymm h.ordered h'.ordered fun place =>
    (h.stable place).trans (h'.stable place).symm

/-! ## All documents -/

/-- The diagnostics of all documents in the order in which they are shown. -/
def arrangement (s : Store) : List (String × Diagnostic) :=
  s.toList.flatMap fun e => (e.2.mergeSort startsBefore).map (e.1, ·)

theorem lines_eq_map (s : Store) :
    s.lines = s.arrangement.map fun e => line (location e.1) e.2 := by
  simp [lines, arrangement, documentLines, List.map_flatMap, Function.comp_def]

/-- In an ordered store a document is listed with all that it shows. -/
theorem find?_toList (order : s.entries.Increasing) (uri : String) :
    Entries.find? uri s.toList = if s.get uri = [] then none else some (s.get uri) := by
  have increasing : Entries.Increasing s.toList := order.sublist s.toList_sublist
  split
  · rename_i nothing
    cases found : Entries.find? uri s.toList with
    | none => rfl
    | some ds =>
      obtain ⟨rfl, some⟩ := (mem_toList_iff order).mp (Entries.mem_of_find? found)
      exact absurd nothing some
  · rename_i some
    exact Entries.find?_of_mem increasing ((mem_toList_iff order).mpr ⟨rfl, some⟩)

/-- What is shown of one document. -/
theorem filter_arrangement (order : s.entries.Increasing) (uri : String) :
    (s.arrangement.filter (·.1 = uri)).map Prod.snd = (s.get uri).mergeSort startsBefore := by
  have part : ∀ listed : List (String × List Diagnostic), Entries.Increasing listed →
      ((listed.flatMap fun e => (e.2.mergeSort startsBefore).map (e.1, ·)).filter
        (·.1 = uri)).map Prod.snd =
        (Entries.find? uri listed).elim [] fun ds => ds.mergeSort startsBefore := by
    intro listed increasing
    induction listed with
    | nil => rfl
    | cons e listed ih =>
      obtain ⟨above, rest⟩ := List.pairwise_cons.mp increasing
      rw [List.flatMap_cons, List.filter_append, List.map_append, ih rest, Entries.find?]
      split
      · rename_i same
        have once : Entries.find? uri listed = none :=
          Entries.find?_eq_none fun held => String.lt_irrefl uri (same ▸ above uri held)
        simp [once, same, List.filter_map, Function.comp_def]
      · rename_i other
        simp [other, List.filter_map, Function.comp_def]
  rw [arrangement, part _ (order.sublist s.toList_sublist), find?_toList order]
  split
  · rename_i nothing
    rw [nothing, List.mergeSort_nil]
    rfl
  · rfl

theorem pairwise_arrangement (order : s.entries.Increasing) :
    s.arrangement.Pairwise fun a b => Utf8.encode a.1 ≤ Utf8.encode b.1 := by
  unfold arrangement
  rw [List.pairwise_flatMap]
  constructor
  · intro e _
    rw [List.pairwise_map]
    exact List.pairwise_of_forall fun _ _ => List.le_refl _
  · refine (toList_pairwise order).imp fun less x hx y hy => ?_
    obtain ⟨_, _, rfl⟩ := List.mem_map.mp hx
    obtain ⟨_, _, rfl⟩ := List.mem_map.mp hy
    exact List.le_of_lt less

theorem mem_arrangement {e : String × Diagnostic} (h : e ∈ s.arrangement) :
    ∃ ds, (e.1, ds) ∈ s.toList ∧ e.2 ∈ ds := by
  obtain ⟨listed, mem, own⟩ := List.mem_flatMap.mp h
  obtain ⟨d, sorted, rfl⟩ := List.mem_map.mp own
  exact ⟨listed.2, mem, List.mem_mergeSort.mp sorted⟩

/-- Texts with the same bytes are the same. -/
theorem encode_antisymm {a b : String} (h : Utf8.encode a ≤ Utf8.encode b)
    (h' : Utf8.encode b ≤ Utf8.encode a) : a = b :=
  String.le_antisymm (String.not_lt.mp fun less => h (Utf8.encode_lt_encode less))
    (String.not_lt.mp fun less => h' (Utf8.encode_lt_encode less))

/-- There is only one order in which a store can be shown. -/
theorem eq_arrangement (increasing : s.entries.Increasing) {order : List (String × Diagnostic)}
    (sorted : order.Pairwise fun a b => Utf8.encode a.1 ≤ Utf8.encode b.1)
    (arranged : ∀ uri, Arranged (s.get uri) ((order.filter (·.1 = uri)).map Prod.snd)) :
    order = s.arrangement := by
  have pairs : ∀ (es : List (String × Diagnostic)) (uri : String),
      es.filter (·.1 = uri) = ((es.filter (·.1 = uri)).map Prod.snd).map (uri, ·) := by
    intro es uri
    rw [List.map_map]
    refine (List.map_id _).symm.trans (List.map_congr_left fun e he => ?_)
    have same : e.1 = uri := by simpa using (List.mem_filter.mp he).2
    simp [← same]
  refine eq_of_filter_eq encode_antisymm sorted (pairwise_arrangement increasing) fun uri => ?_
  rw [pairs order, pairs s.arrangement, filter_arrangement increasing,
    (arranged uri).eq (arranged_mergeSort _)]

/-! ## The law of lines -/

/-- Over every history the lines of a store whose places fit 32 bits, counted from one, are the
one list that shows it: a line for each diagnostic, none lost and none twice, document by
document in the order of the bytes of the URIs, and in a document by start, with ties as
published. -/
theorem shows_iff_eq_lines (ps : List Publication)
    (small : ∀ e ∈ (replay ps).toList, ∀ d ∈ e.2,
      d.span.start.line < 2 ^ 32 - 1 ∧ d.span.start.character < 2 ^ 32 - 1)
    (lines : List String) : Shows (replay ps) lines ↔ lines = (replay ps).lines := by
  have increasing := increasing_replay ps
  have reads : List.Forall₂ (fun e line => Reads e.1 e.2 line) (replay ps).arrangement
      (replay ps).lines := by
    rw [lines_eq_map, List.forall₂_map_right_iff, List.forall₂_same]
    intro e he
    obtain ⟨ds, listed, own⟩ := mem_arrangement he
    obtain ⟨line, character⟩ := small _ listed _ own
    exact reads_line e.1 line character
  constructor
  · rintro ⟨order, reading, sorted, arranged⟩
    have unique : Relator.RightUnique fun (e : String × Diagnostic) line => Reads e.1 e.2 line :=
      fun _ _ _ h h' => h.eq h'
    rw [eq_arrangement increasing sorted arranged] at reading
    exact unique.forall₂ reading reads
  · rintro rfl
    refine ⟨_, reads, pairwise_arrangement increasing, fun uri => ?_⟩
    rw [filter_arrangement increasing]
    exact arranged_mergeSort _

/-- A diagnostic that starts in the third line. -/
def inThirdLine (character : Nat) (severity : Option Severity) (message : String) : Diagnostic :=
  ⟨⟨⟨2, character⟩, ⟨3, 0⟩⟩, severity, none, none, message⟩

/-- Two documents: in one, two diagnostics have one start and a later one came first; the other
has no path. -/
def tied : List Publication :=
  [⟨"untitled:1", none, [remark]⟩,
    ⟨"file:///b%20c.py", some 1, [inThirdLine 4 (some .hint) "last",
      inThirdLine 1 (some .warning) "first", inThirdLine 1 none "second"]⟩]

theorem shows_iff_eq_lines_tied :
    (∀ e ∈ (replay tied).toList, ∀ d ∈ e.2,
      d.span.start.line < 2 ^ 32 - 1 ∧ d.span.start.character < 2 ^ 32 - 1) ∧
    Shows (replay tied) ["/b c.py:3:2: warning: first", "/b c.py:3:2: error: second",
      "/b c.py:3:5: hint: last", "untitled:1:1:1: error: unused"] := by
  have small : ∀ e ∈ (replay tied).toList, ∀ d ∈ e.2,
      d.span.start.line < 2 ^ 32 - 1 ∧ d.span.start.character < 2 ^ 32 - 1 := by
    decide +kernel
  have listed : (replay tied).toList =
      [("file:///b%20c.py", [inThirdLine 4 (some .hint) "last",
        inThirdLine 1 (some .warning) "first", inThirdLine 1 none "second"]),
      ("untitled:1", [remark])] := by
    decide +kernel
  have sorted : [inThirdLine 4 (some .hint) "last", inThirdLine 1 (some .warning) "first",
      inThirdLine 1 none "second"].mergeSort startsBefore =
        [inThirdLine 1 (some .warning) "first", inThirdLine 1 none "second",
          inThirdLine 4 (some .hint) "last"] := by
    simp [List.mergeSort, List.MergeSort.Internal.splitInTwo, startsBefore, inThirdLine]
  have order : (replay tied).arrangement =
      [("file:///b%20c.py", inThirdLine 1 (some .warning) "first"),
        ("file:///b%20c.py", inThirdLine 1 none "second"),
        ("file:///b%20c.py", inThirdLine 4 (some .hint) "last"), ("untitled:1", remark)] := by
    simp [arrangement, listed, sorted]
  refine ⟨small, (shows_iff_eq_lines tied small _).mpr ?_⟩
  rw [lines_eq_map, order]
  decide +kernel

end Diagnostics.Store

end LanguageClient
