import LanguageClient.Diagnostics.Store
import LanguageClient.Proofs.Entries
import Mathlib.Data.List.DropRight

/-!
# What a history of publications leaves in the store

The publications of one document decide alone what is stored for it.  Among those
since the last one without a version, the last with the highest version is in force;
the entry of a document is what is kept of the publication in force, and a publication
is taken exactly when it states no lower version than any of those.
-/

set_option autoImplicit false

namespace LanguageClient.Diagnostics.Store

variable {s s' : Store} {p q : Publication} {u : String} {ps qs mine : List Publication}

/-- The store after a series of publications. -/
def replay (ps : List Publication) : Store := ps.foldl (fun s p => (s.apply p).1) empty

/-- The publications of one document. -/
def ofDocument (u : String) (ps : List Publication) : List Publication :=
  ps.filter (·.uri = u)

/-- The publications after the last one without a version. -/
def since (mine : List Publication) : List Publication :=
  mine.rtakeWhile (·.version.isSome)

/-- Whether a publication states no lower version than those since the last without one. -/
def Current (mine : List Publication) (p : Publication) : Prop :=
  ∀ v ∈ p.version, ∀ q ∈ since mine, ∀ w ∈ q.version, w ≤ v

instance (mine : List Publication) (p : Publication) : Decidable (Current mine p) :=
  inferInstanceAs (Decidable (∀ v ∈ p.version, ∀ q ∈ since mine, ∀ w ∈ q.version, w ≤ v))

/-- Of the publications of a document, the one that counts: the last without a version
if none followed it, else the last with the highest version since. -/
inductive InForce (mine : List Publication) (p : Publication) : Prop
  | plain (last : mine.getLast? = some p) (version : p.version = none)
  | highest (earlier later : List Publication) (v : Int)
      (split : since mine = earlier ++ p :: later) (version : p.version = some v)
      (before : ∀ q ∈ earlier, ∀ w ∈ q.version, w ≤ v)
      (after : ∀ q ∈ later, ∀ w ∈ q.version, w < v)

/-- What is kept of a publication in force: one that clears a document for good
leaves nothing. -/
def kept? (p : Publication) : Option Entry :=
  if p.diagnostics.isEmpty && p.version.isNone then none
  else some ⟨p.version, p.diagnostics⟩

theorem version_kept? (p : Publication) : (kept? p).bind Entry.version = p.version := by
  unfold kept?
  split
  · rename_i cleared
    have plain : p.version = none := by simpa using (Bool.and_eq_true_iff.mp cleared).2
    rw [plain]
    rfl
  · rfl

theorem diagnostics_kept? (p : Publication) :
    (kept? p).elim [] Entry.diagnostics = p.diagnostics := by
  unfold kept?
  split
  · rename_i cleared
    have none_left : p.diagnostics = [] := by simpa using (Bool.and_eq_true_iff.mp cleared).1
    rw [none_left]
    rfl
  · rfl

/-! ## One publication -/

theorem apply_of_stale (h : s.isStale p = true) : s.apply p = (s, false) := if_pos h

theorem apply_taken : (s.apply p).2 = !s.isStale p := by
  unfold apply
  split
  · rename_i stale
    simp [stale]
  · rename_i current
    split <;> simp [current]

/-- A publication that is taken replaces what is kept for its document. -/
theorem find?_apply_same (h : s.isStale p = false) :
    (s.apply p).1.entries.find? p.uri = kept? p := by
  unfold apply kept?
  rw [if_neg (by simp [h])]
  split
  · exact Entries.find?_remove_same p.uri s.entries
  · exact Entries.find?_put_same p.uri _ s.entries

theorem find?_apply_other (h : p.uri ≠ u) :
    (s.apply p).1.entries.find? u = s.entries.find? u := by
  unfold apply
  split
  · rfl
  · split
    · exact Entries.find?_remove_ne (Ne.symm h)
    · exact Entries.find?_put_ne (Ne.symm h)

theorem increasing_apply (h : s.entries.Increasing) : (s.apply p).1.entries.Increasing := by
  unfold apply
  split
  · exact h
  · split
    · exact Entries.increasing_remove h
    · exact Entries.increasing_put h

/-! ## The publications of a document -/

theorem replay_snoc (ps : List Publication) (p : Publication) :
    replay (ps ++ [p]) = ((replay ps).apply p).1 := by
  simp [replay]

theorem ofDocument_snoc_same (h : p.uri = u) :
    ofDocument u (ps ++ [p]) = ofDocument u ps ++ [p] := by
  simp [ofDocument, h]

theorem ofDocument_snoc_other (h : p.uri ≠ u) :
    ofDocument u (ps ++ [p]) = ofDocument u ps := by
  simp [ofDocument, h]

/-- A publication without a version lets all before it be forgotten. -/
theorem since_snoc_plain (h : p.version = none) : since (mine ++ [p]) = [] :=
  List.rtakeWhile_concat_neg _ _ _ (by simp [h])

theorem since_snoc_versioned {v : Int} (h : p.version = some v) :
    since (mine ++ [p]) = since mine ++ [p] :=
  List.rtakeWhile_concat_pos _ _ _ (by simp [h])

theorem current_of_plain (h : p.version = none) : Current mine p := by
  intro v hv
  simp [h] at hv

theorem not_inForce_nil : ¬ InForce [] p := by
  rintro (⟨last, -⟩ | ⟨earlier, later, _, split⟩)
  · cases last
  · simp [since] at split

/-- The publication in force decides which later ones are current. -/
theorem InForce.current_iff (h : InForce mine p) :
    Current mine q ↔ ∀ v ∈ q.version, ∀ w ∈ p.version, w ≤ v := by
  cases h with
  | plain last version =>
    obtain ⟨before, rfl⟩ := List.getLast?_eq_some_iff.mp last
    simp [Current, since_snoc_plain version, version]
  | highest earlier later top split version before after =>
    constructor
    · intro current v hv w hw
      exact current v hv p (by simp [split]) w hw
    · intro above v hv r hr w hw
      have bound : top ≤ v := above v hv top version
      rw [split] at hr
      rcases List.mem_append.mp hr with earlierOne | hr
      · have := before r earlierOne w hw
        omega
      rcases List.mem_cons.mp hr with rfl | laterOne
      · exact above v hv w hw
      · have := after r laterOne w hw
        omega

theorem InForce.of_current (h : Current mine p) : InForce (mine ++ [p]) p := by
  cases hv : p.version with
  | none => exact .plain (by simp) hv
  | some v => exact .highest (since mine) [] v (since_snoc_versioned hv) hv (h v hv) (by simp)

/-- A publication stays in force while others are stale. -/
theorem InForce.snoc (h : InForce mine p) (stale : ¬ Current mine q) :
    InForce (mine ++ [q]) p := by
  have lower : ∃ v ∈ q.version, ∃ w ∈ p.version, v < w := by
    rw [h.current_iff] at stale
    simpa only [not_forall, exists_prop, Int.not_le] using stale
  obtain ⟨v, hv, w, hw, less⟩ := lower
  -- What makes another one stale states a version itself.
  cases h with
  | plain last version => simp [version] at hw
  | highest earlier later top split version before after =>
    have same : w = top := Option.some.inj (hw.symm.trans version)
    refine .highest earlier (later ++ [q]) top ?_ version before ?_
    · rw [since_snoc_versioned hv, split]
      simp
    · intro r hr x hx
      rcases List.mem_append.mp hr with earlierOne | new
      · exact after r earlierOne x hx
      · rw [List.mem_singleton.mp new] at hx
        have : x = v := Option.some.inj (hx.symm.trans hv)
        omega

/-- Two splits of one list are at the same item, unless each item is beside the other. -/
theorem eq_of_split {α : Type} {a b : α} {before before' after after' : List α}
    (split : before ++ a :: after = before' ++ b :: after')
    (apart : ¬ (b ∈ after ∧ a ∈ before')) (apart' : ¬ (a ∈ after' ∧ b ∈ before)) : a = b := by
  rcases List.append_eq_append_iff.mp split with ⟨mid, rfl, h⟩ | ⟨mid, rfl, h⟩
  · cases mid with
    | nil => exact (List.cons.inj h).1
    | cons c mid =>
      obtain ⟨rfl, rfl⟩ := List.cons.inj h
      exact absurd ⟨by simp, by simp⟩ apart
  · cases mid with
    | nil => exact (List.cons.inj h).1.symm
    | cons c mid =>
      obtain ⟨rfl, rfl⟩ := List.cons.inj h
      exact absurd ⟨by simp, by simp⟩ apart'

/-- Only one publication is in force. -/
theorem InForce.unique (hp : InForce mine p) (hq : InForce mine q) : p = q := by
  cases hp with
  | plain last version =>
    obtain ⟨before, rfl⟩ := List.getLast?_eq_some_iff.mp last
    cases hq with
    | plain last' _ => simpa using last'
    | highest earlier later _ split => simp [since_snoc_plain version] at split
  | highest earlier later v split version before after =>
    cases hq with
    | plain last' version' =>
      obtain ⟨rest, rfl⟩ := List.getLast?_eq_some_iff.mp last'
      simp [since_snoc_plain version'] at split
    | highest earlier' later' v' split' version' before' after' =>
      apply eq_of_split (split.symm.trans split')
      · rintro ⟨q_later, p_earlier⟩
        have less : v' < v := after q q_later v' version'
        have bound : v ≤ v' := before' p p_earlier v version
        omega
      · rintro ⟨p_later, q_earlier⟩
        have less : v < v' := after' p p_later v version
        have bound : v' ≤ v := before q q_earlier v' version'
        omega

/-! ## Histories -/

theorem increasing_replay (ps : List Publication) : (replay ps).entries.Increasing := by
  induction ps using List.reverseRecOn with
  | nil => exact List.Pairwise.nil
  | append_singleton ps p ih =>
    rw [replay_snoc]
    exact increasing_apply ih

/-- What the store holds for a document is what is kept of its publication in force. -/
def Holds (s : Store) (u : String) (mine : List Publication) : Prop :=
  (mine = [] ∧ s.entries.find? u = none) ∨
    ∃ p, InForce mine p ∧ s.entries.find? u = kept? p

/-- A publication is stale exactly when it is not current. -/
theorem Holds.stale_iff (h : s.Holds p.uri mine) :
    s.isStale p = true ↔ ¬ Current mine p := by
  have stale_eq : s.isStale p = true ↔
      ∃ v ∈ p.version, ∃ w ∈ (s.entries.find? p.uri).bind Entry.version, v < w := by
    unfold isStale
    split
    · rename_i v w hv hw
      simp [hv, hw]
    · rename_i other
      constructor
      · intro h
        cases h
      · rintro ⟨v, hv, w, hw, _⟩
        exact absurd hw (other v w hv)
  rw [stale_eq]
  rcases h with ⟨rfl, unheld⟩ | ⟨top, inForce, held⟩
  · simp [unheld, Current, since]
  · rw [held, version_kept?, inForce.current_iff]
    simp only [not_forall, exists_prop, Int.not_le]

theorem Holds.apply_other (h : s.Holds u mine) (other : p.uri ≠ u) :
    (s.apply p).1.Holds u mine := by
  unfold Holds
  rw [find?_apply_other other]
  exact h

theorem Holds.apply_same (h : s.Holds u mine) (same : p.uri = u) :
    (s.apply p).1.Holds u (mine ++ [p]) := by
  subst same
  by_cases current : Current mine p
  · have taken : s.isStale p = false := by
      rw [Bool.eq_false_iff, ne_eq, h.stale_iff, not_not]
      exact current
    exact .inr ⟨p, .of_current current, find?_apply_same taken⟩
  · rw [apply_of_stale (h.stale_iff.mpr current)]
    rcases h with ⟨rfl, -⟩ | ⟨top, inForce, held⟩
    · exact absurd (by simp [Current, since]) current
    · exact .inr ⟨top, inForce.snoc current, held⟩

theorem holds_replay (ps : List Publication) (u : String) :
    (replay ps).Holds u (ofDocument u ps) := by
  induction ps using List.reverseRecOn with
  | nil => exact .inl ⟨rfl, rfl⟩
  | append_singleton ps p ih =>
    rw [replay_snoc]
    by_cases same : p.uri = u
    · rw [ofDocument_snoc_same same]
      exact ih.apply_same same
    · rw [ofDocument_snoc_other same]
      exact ih.apply_other same

/-- The publication in force says what a document shows. -/
theorem Holds.get_eq (h : s.Holds u mine) (inForce : InForce mine p) :
    s.get u = p.diagnostics := by
  rcases h with ⟨rfl, -⟩ | ⟨top, inForce', held⟩
  · exact absurd inForce not_inForce_nil
  · rw [get, held, diagnostics_kept?, inForce'.unique inForce]

/-- The publications of a document determine its entry. -/
theorem Holds.find?_eq (h : s.Holds u mine) (h' : s'.Holds u mine) :
    s.entries.find? u = s'.entries.find? u := by
  rcases h with ⟨rfl, unheld⟩ | ⟨top, inForce, held⟩
  · rcases h' with ⟨-, unheld'⟩ | ⟨top, inForce, -⟩
    · rw [unheld, unheld']
    · exact absurd inForce not_inForce_nil
  · rcases h' with ⟨rfl, -⟩ | ⟨top', inForce', held'⟩
    · exact absurd inForce not_inForce_nil
    · rw [held, held', inForce.unique inForce']

/-- Histories that agree on every document leave the same store. -/
theorem replay_eq_of_agree (agree : ∀ u, ofDocument u ps = ofDocument u qs) :
    replay ps = replay qs := by
  have entries_eq : (replay ps).entries = (replay qs).entries := by
    -- Both stores are sorted by document, so they are equal when every document finds the same.
    apply Entries.eq_of_find? (increasing_replay ps) (increasing_replay qs)
    intro u
    have holds : (replay qs).Holds u (ofDocument u ps) := by
      rw [agree u]
      exact holds_replay qs u
    exact (holds_replay ps u).find?_eq holds
  exact congrArg Store.mk entries_eq

theorem taken_iff (ps : List Publication) (p : Publication) :
    ((replay ps).apply p).2 = true ↔ Current (ofDocument p.uri ps) p := by
  rw [apply_taken, Bool.not_eq_true', Bool.eq_false_iff, ne_eq,
    (holds_replay ps p.uri).stale_iff, not_not]

theorem apply_of_not_current (h : ¬ Current (ofDocument p.uri ps) p) :
    (replay ps).apply p = (replay ps, false) :=
  apply_of_stale ((holds_replay ps p.uri).stale_iff.mpr h)

theorem exists_inForce (h : mine ≠ []) : ∃ p, InForce mine p := by
  induction mine using List.reverseRecOn with
  | nil => exact absurd rfl h
  | append_singleton mine q ih =>
    by_cases current : Current mine q
    · exact ⟨q, .of_current current⟩
    · have before : mine ≠ [] := by
        rintro rfl
        exact current (by simp [Current, since])
      obtain ⟨p, inForce⟩ := ih before
      exact ⟨p, inForce.snoc current⟩

/-- A document cleared at a version stays so when older publications come late. -/
theorem cleared_stays {v : Int} (version : p.version = some v) (cleared : p.diagnostics = [])
    (current : Current (ofDocument p.uri ps) p) :
    (replay (ps ++ [p])).get p.uri = [] ∧
      ∀ q, q.uri = p.uri → ∀ w ∈ q.version, w < v →
        (replay (ps ++ [p])).apply q = (replay (ps ++ [p]), false) := by
  have inForce : InForce (ofDocument p.uri (ps ++ [p])) p := by
    rw [ofDocument_snoc_same rfl]
    exact .of_current current
  refine ⟨((holds_replay _ _).get_eq inForce).trans cleared, fun q same w hw less => ?_⟩
  apply apply_of_not_current
  rw [same, inForce.current_iff]
  intro above
  have := above w hw v version
  omega

/-! ## The law of histories -/

/-- Over every history the publications of a document decide alone which of them are
taken and what it shows.  One without a version is taken and lets the earlier versions
be forgotten; one with a version is taken exactly when no version since is higher, and
else changes nothing.  A document shows the publication in force, or nothing when it has
none, and one cleared at a version stays closed to older ones. -/
theorem latest_in_force (ps : List Publication) :
    (∀ qs u, ofDocument u ps = ofDocument u qs →
      (replay ps).get u = (replay qs).get u ∧
        ∀ p, p.uri = u → ((replay ps).apply p).2 = ((replay qs).apply p).2) ∧
    (∀ qs, (∀ u, ofDocument u ps = ofDocument u qs) → replay ps = replay qs) ∧
    (∀ p, p.version = none →
      ((replay ps).apply p).2 = true ∧ since (ofDocument p.uri (ps ++ [p])) = []) ∧
    (∀ p v, p.version = some v →
      (((replay ps).apply p).2 = true ↔
        ∀ q ∈ since (ofDocument p.uri ps), ∀ w, q.version = some w → w ≤ v)) ∧
    (∀ p, ((replay ps).apply p).2 = false → ((replay ps).apply p).1 = replay ps) ∧
    (∀ u, ofDocument u ps = [] → (replay ps).get u = []) ∧
    (∀ u, ofDocument u ps ≠ [] → ∃ p, InForce (ofDocument u ps) p) ∧
    (∀ u p, InForce (ofDocument u ps) p → (replay ps).get u = p.diagnostics) ∧
    (∀ p v, p.version = some v → p.diagnostics = [] → ((replay ps).apply p).2 = true →
      (replay (ps ++ [p])).get p.uri = [] ∧
        ∀ q, q.uri = p.uri → ∀ w, q.version = some w → w < v →
          (replay (ps ++ [p])).apply q = (replay (ps ++ [p]), false)) := by
  refine ⟨fun qs u agree => ⟨?_, fun p same => ?_⟩, fun qs => replay_eq_of_agree,
    fun p plain => ⟨?_, ?_⟩, fun p v version => ?_, fun p refused => ?_, fun u unpublished => ?_,
    fun u => exists_inForce, fun u p => (holds_replay ps u).get_eq,
    fun p v version cleared taken => ?_⟩
  · have holds : (replay qs).Holds u (ofDocument u ps) := by
      rw [agree]
      exact holds_replay qs u
    rw [get, get, (holds_replay ps u).find?_eq holds]
  · subst same
    rw [Bool.eq_iff_iff, taken_iff, taken_iff, agree]
  · exact (taken_iff ps p).mpr (current_of_plain plain)
  · rw [ofDocument_snoc_same rfl]
    exact since_snoc_plain plain
  · rw [taken_iff]
    simp [Current, version]
  · have stale : ¬ Current (ofDocument p.uri ps) p := by
      rw [← taken_iff, refused]
      exact Bool.false_ne_true
    rw [apply_of_not_current stale]
  · rcases holds_replay ps u with ⟨-, unheld⟩ | ⟨p, inForce, -⟩
    · rw [get, unheld]
      rfl
    · rw [unpublished] at inForce
      exact absurd inForce not_inForce_nil
  · exact cleared_stays version cleared ((taken_iff ps p).mp taken)

/-- A remark at the start of a document. -/
def remark : Diagnostic := ⟨⟨⟨0, 0⟩, ⟨0, 1⟩⟩, none, none, none, "unused"⟩

/-- Two documents in turn: one is cleared at version 4 after its version 3 and before
version 2 comes late, the other has a remark without a version. -/
def clearing : List Publication :=
  [⟨"file:///a.py", some 3, [remark]⟩, ⟨"file:///b.py", none, [remark]⟩,
    ⟨"file:///a.py", some 4, []⟩, ⟨"file:///a.py", some 2, [remark]⟩]

theorem latest_in_force_clearing :
    (replay clearing).get "file:///a.py" = [] ∧
      (replay clearing).get "file:///b.py" = [remark] ∧
      ((replay clearing).apply ⟨"file:///a.py", some 3, [remark]⟩).1 = replay clearing ∧
      ((replay clearing).apply ⟨"file:///a.py", some 4, [remark]⟩).2 = true := by
  obtain ⟨-, -, -, versioned, refused, -, -, shows, -⟩ := latest_in_force clearing
  have cleared : InForce (ofDocument "file:///a.py" clearing) ⟨"file:///a.py", some 4, []⟩ :=
    .highest [⟨"file:///a.py", some 3, [remark]⟩] [⟨"file:///a.py", some 2, [remark]⟩] 4
      (by decide +kernel) rfl (by decide +kernel) (by decide +kernel)
  have plain : InForce (ofDocument "file:///b.py" clearing) ⟨"file:///b.py", none, [remark]⟩ :=
    .plain (by decide +kernel) rfl
  refine ⟨shows _ _ cleared, shows _ _ plain, refused _ (by decide +kernel), ?_⟩
  apply (versioned _ 4 rfl).mpr
  intro q hq w hw
  have known : ∀ r ∈ since (ofDocument "file:///a.py" clearing), ∀ x ∈ r.version, x ≤ 4 := by
    decide +kernel
  exact known q hq w hw

end LanguageClient.Diagnostics.Store
