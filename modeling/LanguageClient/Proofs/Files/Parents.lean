import LanguageClient.Proofs.Files.Places
import Mathlib.Data.List.DropRight

/-!
# Paths and what they lie under

Some parts of a path lead elsewhere, the empty ones and single dots do not: `steps` are those
that do.  The parent of a path is written in front of it and takes one step less, and a name
behind a path is one step more.
-/

set_option autoImplicit false

namespace LanguageClient

namespace Path

variable {p q : Path} {bytes part : Bytes} {ps : List Bytes}

/-! ## Parts -/

theorem parts_append_separator (a b : Bytes) :
    parts (a ++ separator :: b) = parts a ++ parts b := by
  induction a with
  | nil => simp [parts]
  | cons x a ih =>
    obtain ⟨first, others, eq⟩ := List.exists_cons_of_ne_nil (parts_ne_nil a)
    by_cases sep : x = separator
    · simp [parts, sep, ih]
    · simp [parts, sep, ih, eq]

theorem separator_not_mem (h : part ∈ parts bytes) : separator ∉ part := by
  induction bytes generalizing part with
  | nil =>
    obtain rfl : part = [] := by simpa [parts] using h
    simp
  | cons b rest ih =>
    obtain ⟨first, others, eq⟩ := List.exists_cons_of_ne_nil (parts_ne_nil rest)
    by_cases sep : b = separator
    · rcases List.mem_cons.mp (by simpa [parts, sep] using h) with rfl | later
      · simp
      · exact ih later
    · rcases List.mem_cons.mp (by simpa [parts, sep, eq] using h) with rfl | later
      · have free : separator ∉ first := ih (by simp [eq])
        simp [Ne.symm sep, free]
      · exact ih (by simp [eq, later])

theorem joinParts_cons_cons (a b : Bytes) (rest : List Bytes) :
    joinParts (a :: b :: rest) = a ++ separator :: joinParts (b :: rest) := rfl

/-- Joining parts undoes the division into parts. -/
@[simp] theorem joinParts_parts (bytes : Bytes) : joinParts (parts bytes) = bytes := by
  induction bytes with
  | nil => rfl
  | cons b rest ih =>
    obtain ⟨first, others, eq⟩ := List.exists_cons_of_ne_nil (parts_ne_nil rest)
    rw [eq] at ih
    by_cases sep : b = separator
    · simp [parts, sep, eq, joinParts_cons_cons, ih]
    · cases others with
      | nil => simpa [parts, sep, eq, joinParts] using ih
      | cons second others =>
        rw [joinParts_cons_cons] at ih
        have here : parts (b :: rest) = (b :: first) :: second :: others := by
          simp [parts, sep, eq]
        rw [here, joinParts_cons_cons, List.cons_append, ih]

/-- Parts without separators are the parts of what they are joined to. -/
theorem parts_joinParts (some : ps ≠ []) (free : ∀ part ∈ ps, separator ∉ part) :
    parts (joinParts ps) = ps := by
  induction ps with
  | nil => exact absurd rfl some
  | cons a rest ih =>
    have first : parts a = [a] := parts_of_not_mem (free a List.mem_cons_self)
    cases rest with
    | nil => exact first
    | cons b rest =>
      have later := ih (by simp) fun part h => free part (List.mem_cons_of_mem _ h)
      rw [joinParts_cons_cons, parts_append_separator, first, later, List.singleton_append]

theorem suffix_joinParts (ps : List Bytes) (last : Bytes) :
    last <:+ joinParts (ps ++ [last]) := by
  induction ps with
  | nil => exact List.suffix_rfl
  | cons a rest ih =>
    obtain ⟨b, others, eq⟩ := List.exists_cons_of_ne_nil (show rest ++ [last] ≠ [] by simp)
    rw [eq] at ih
    rw [List.cons_append, eq, joinParts_cons_cons]
    exact (ih.trans (List.suffix_cons _ _)).trans (List.suffix_append _ _)

theorem joinParts_prefix (ps qs : List Bytes) : joinParts ps <+: joinParts (ps ++ qs) := by
  induction ps with
  | nil => exact List.nil_prefix
  | cons a rest ih =>
    cases rest with
    | nil =>
      cases qs with
      | nil => exact List.prefix_rfl
      | cons b qs => exact List.prefix_append a _
    | cons b rest =>
      rw [List.cons_append, List.cons_append, joinParts_cons_cons, joinParts_cons_cons]
      rw [List.prefix_append_right_inj, List.cons_prefix_cons]
      exact ⟨rfl, ih⟩

/-! ## Steps -/

/-- Whether a part of a path leads elsewhere. -/
def leads (part : Bytes) : Bool := (component? part).isSome

/-- The parts of a path that lead elsewhere. -/
def steps (p : Path) : List Bytes := (parts p.bytes).filter leads

theorem leads_eq_false_iff : leads part = false ↔ part = [] ∨ part = [dot] := by
  unfold leads component?
  split
  · rename_i rests
    simp [rests]
  · rename_i goes
    split <;> simp [goes]

@[simp] theorem leads_nil : leads [] = false := rfl

@[simp] theorem leads_dot : leads [dot] = false := rfl

/-- Parts that are trimmed off do not lead elsewhere. -/
theorem filter_trimParts (ps : List Bytes) : (trimParts ps).filter leads = ps.filter leads := by
  have skipped : ∀ qs : List Bytes,
      (qs.dropWhile fun part => (component? part).isNone).filter leads = qs.filter leads := by
    intro qs
    induction qs with
    | nil => rfl
    | cons a qs ih =>
      rw [List.dropWhile_cons]
      split
      · rename_i none
        have rests : leads a = false := by simpa [leads] using none
        rw [ih, List.filter_cons, rests]
        rfl
      · rfl
  rw [trimParts, List.filter_reverse, skipped, List.filter_reverse, List.reverse_reverse]

theorem trimParts_front (ps : List Bytes) : trimParts ps <+: ps :=
  List.rdropWhile_prefix _ ps

/-- What is left at the end of trimmed parts leads elsewhere. -/
theorem leads_of_trimParts {rest : List Bytes} (h : trimParts ps = rest ++ [part]) :
    leads part = true := by
  have left : ps.rdropWhile (fun part => (component? part).isNone) = rest ++ [part] := h
  have last := List.rdropWhile_last_not (fun part => (component? part).isNone) ps
    (by rw [left]; simp)
  simp only [left, List.getLast_append_singleton] at last
  cases here : component? part with
  | none => simp [here] at last
  | some c => simp [leads, here]

theorem filter_parts_joinParts (free : ∀ part ∈ ps, separator ∉ part) :
    (parts (joinParts ps)).filter leads = ps.filter leads := by
  by_cases none : ps = []
  · subst none
    rfl
  · rw [parts_joinParts none free]

/-! ## Parents -/

/-- How a path begins and what follows: with the root, with a dot, or with neither. -/
inductive Divided (p : Path) : Bytes → Bytes → Prop
  | root {body : Bytes} (is : p.bytes = separator :: body) : Divided p [separator] body
  | dot {body : Bytes} (is : p.bytes = Path.dot :: body)
      (ends : body = [] ∨ ∃ rest, body = separator :: rest) : Divided p [Path.dot] body
  | plain (relative : p.isAbsolute = false) : Divided p [] p.bytes

/-- The parent of a path keeps what it begins with. -/
theorem divided (p : Path) : ∃ front body, Divided p front body ∧ p.parent? =
    match (trimParts (parts body)).reverse with
    | [] => if front = [dot] then some ⟨[]⟩ else none
    | _ :: rest => some ⟨front ++ joinParts (trimParts rest.reverse)⟩ := by
  obtain ⟨bytes⟩ := p
  cases absolute : Path.isAbsolute ⟨bytes⟩ with
  | true =>
    cases bytes with
    | nil => cases absolute
    | cons b body =>
      obtain rfl : b = separator := by simpa [isAbsolute] using absolute
      refine ⟨[separator], body, .root rfl, ?_⟩
      rw [parent?, if_pos absolute]
      rfl
  | false =>
    obtain ⟨first, others, eq⟩ := List.exists_cons_of_ne_nil (parts_ne_nil bytes)
    have joined := joinParts_parts bytes
    rw [eq] at joined
    by_cases dotted : first = [Path.dot]
    · subst dotted
      have written : ∃ body, bytes = Path.dot :: body ∧
          (body = [] ∨ ∃ rest, body = separator :: rest) := by
        cases others with
        | nil => exact ⟨[], joined.symm, .inl rfl⟩
        | cons second others => exact ⟨_, joined.symm, .inr ⟨_, rfl⟩⟩
      obtain ⟨body, rfl, ends⟩ := written
      refine ⟨[Path.dot], body, .dot rfl ends, ?_⟩
      simp only [parent?, absolute, eq, if_true, Bool.false_eq_true, if_false]
      rfl
    · refine ⟨[], bytes, .plain absolute, ?_⟩
      cases last : (trimParts (parts bytes)).reverse with
      | nil | cons =>
        rw [eq] at last
        simp [parent?, absolute, eq, dotted, last]

theorem Divided.eq_append {front body : Bytes} (h : Divided p front body) :
    p.bytes = front ++ body := by
  cases h with
  | root is | dot is => exact is
  | plain => rfl

/-- What is written of a path as far as some of its parts takes the steps of these. -/
theorem Divided.steps {front body : Bytes} (h : Divided p front body)
    (within : ps <+: parts body) :
    Path.steps ⟨front ++ joinParts ps⟩ = ps.filter leads := by
  have free : ∀ part ∈ ps, separator ∉ part := fun part h => separator_not_mem (within.subset h)
  cases h with
  | root =>
    have behind : parts (separator :: joinParts ps) = [] :: parts (joinParts ps) := by simp [parts]
    show (parts (separator :: joinParts ps)).filter leads = _
    rw [behind, List.filter_cons, leads_nil, ← filter_parts_joinParts free]
    rfl
  | plain => exact filter_parts_joinParts free
  | dot _ ends =>
    have bare : parts [Path.dot] = [[Path.dot]] := by decide
    have behind (rest : Bytes) : parts (Path.dot :: separator :: rest) = [Path.dot] :: parts rest :=
      parts_append_separator [Path.dot] rest
    show (parts (Path.dot :: joinParts ps)).filter leads = _
    cases ps with
    | nil => simp [joinParts, bare]
    | cons a ps =>
      -- The first part behind the dot is empty, since a separator follows if anything does.
      obtain rfl : a = [] := by
        rcases ends with rfl | ⟨rest, rfl⟩
        · exact (List.cons_prefix_cons.mp within).1
        · exact (List.cons_prefix_cons.mp (by simpa [parts] using within)).1
      cases ps with
      | nil => simp [joinParts, bare]
      | cons b ps =>
        have later : ∀ part ∈ b :: ps, separator ∉ part := fun part h =>
          free part (List.mem_cons_of_mem _ h)
        rw [joinParts_cons_cons, List.nil_append, behind, List.filter_cons, leads_dot,
          List.filter_cons, leads_nil]
        exact filter_parts_joinParts later

theorem Divided.isAbsolute {front body : Bytes} (h : Divided p front body)
    (within : ps <+: parts body) :
    Path.isAbsolute ⟨front ++ joinParts ps⟩ = p.isAbsolute := by
  cases h with
  | root is | dot is => simp [Path.isAbsolute, is]
  | plain relative =>
    obtain ⟨more, eq⟩ := within
    have written := joinParts_prefix ps more
    rw [eq, joinParts_parts] at written
    cases joined : joinParts ps with
    | nil => exact relative.symm
    | cons b rest =>
      obtain ⟨behind, is⟩ := joined ▸ written
      simp [Path.isAbsolute, ← is]

/-- A path is its parts together, as far as they lead elsewhere. -/
theorem Divided.steps_eq {front body : Bytes} (h : Divided p front body) :
    p.steps = (trimParts (parts body)).filter leads := by
  have all := h.steps (List.prefix_refl (parts body))
  have same : (⟨front ++ body⟩ : Path) = p := congrArg Path.mk h.eq_append.symm
  rw [joinParts_parts, same] at all
  rw [all, filter_trimParts]

/-- A parent is what is left of a path without the last part that leads elsewhere, and is
empty if there is only a dot. -/
theorem divided_of_parent? (h : p.parent? = some q) : ∃ front body, Divided p front body ∧
    (trimParts (parts body) = [] ∧ front = [dot] ∧ q = ⟨[]⟩ ∨
      ∃ rest name, trimParts (parts body) = rest ++ [name] ∧ trimParts rest <+: parts body ∧
        q = ⟨front ++ joinParts (trimParts rest)⟩) := by
  obtain ⟨front, body, divided, eq⟩ := p.divided
  refine ⟨front, body, divided, ?_⟩
  rw [h] at eq
  split at eq
  · rename_i none
    split at eq
    · rename_i dotted
      exact .inl ⟨List.reverse_eq_nil_iff.mp none, dotted, Option.some.inj eq⟩
    · cases eq
  · rename_i name rest last
    have trimmed : trimParts (parts body) = rest.reverse ++ [name] := by
      rw [← List.reverse_reverse (trimParts _), last, List.reverse_cons]
    have within : trimParts rest.reverse <+: parts body := by
      refine (trimParts_front _).trans (.trans ?_ (trimParts_front _))
      rw [trimmed]
      exact List.prefix_append _ _
    exact .inr ⟨rest.reverse, name, trimmed, within, Option.some.inj eq⟩

/-- What a parent is: it is written in front of the path, and the path takes one step more,
or none if the parent is empty. -/
theorem parent?_spec (h : p.parent? = some q) :
    q.isAbsolute = p.isAbsolute ∧ q.bytes <+: p.bytes ∧ q.bytes ≠ p.bytes ∧
      ((∃ name, leads name = true ∧ p.steps = q.steps ++ [name]) ∨
        p.steps = [] ∧ q.bytes = []) := by
  obtain ⟨front, body, divided, ⟨none, dotted, rfl⟩ | ⟨rest, name, trimmed, within, rfl⟩⟩ :=
    divided_of_parent? h
  · subst dotted
    cases divided with
    | dot is ends =>
      refine ⟨by simp [Path.isAbsolute, is, Path.dot, separator], List.nil_prefix, ?_, .inr ⟨?_, rfl⟩⟩
      · simp [is]
      · rw [(Divided.dot is ends).steps_eq, none]
        rfl
  · have goes := leads_of_trimParts trimmed
    have further : p.steps = (⟨front ++ joinParts (trimParts rest)⟩ : Path).steps ++ [name] := by
      rw [divided.steps_eq, trimmed, List.filter_append, divided.steps within, filter_trimParts]
      simp [goes]
    refine ⟨divided.isAbsolute within, ?_, fun whole => ?_, .inl ⟨name, goes, further⟩⟩
    · obtain ⟨more, eq⟩ := within
      have written := joinParts_prefix (trimParts rest) more
      rw [eq, joinParts_parts] at written
      rw [divided.eq_append]
      exact (List.prefix_append_right_inj front).mpr written
    · have same : (⟨front ++ joinParts (trimParts rest)⟩ : Path) = p := congrArg Path.mk whole
      rw [same] at further
      simp at further

/-- A path without a parent takes no steps. -/
theorem steps_of_parent?_eq_none (h : p.parent? = none) : p.steps = [] := by
  obtain ⟨front, body, divided, eq⟩ := p.divided
  rw [h] at eq
  split at eq
  · rename_i last
    rw [divided.steps_eq, List.reverse_eq_nil_iff.mp last]
    rfl
  · cases eq

/-- A parent that takes steps is written with a name at its end. -/
theorem ends_of_parent? (h : p.parent? = some q) : q.steps = [] ∨
    ∃ front name, q.bytes = front ++ name ∧ separator ∉ name ∧ leads name = true := by
  obtain ⟨front, body, divided, ⟨-, -, rfl⟩ | ⟨rest, -, -, within, rfl⟩⟩ := divided_of_parent? h
  · exact .inl rfl
  · rcases List.eq_nil_or_concat' (trimParts rest) with none | ⟨init, last, split⟩
    · refine .inl ?_
      rw [divided.steps within, none]
      rfl
    · obtain ⟨before, written⟩ := suffix_joinParts init last
      refine .inr ⟨front ++ before, last, ?_, ?_, leads_of_trimParts split⟩
      · rw [split, List.append_assoc, written]
      · exact separator_not_mem (within.subset (by simp [split]))

theorem length_lt_of_parent? (h : p.parent? = some q) : q.bytes.length < p.bytes.length := by
  obtain ⟨-, written, short, -⟩ := parent?_spec h
  have less := written.length_le
  have other : q.bytes.length ≠ p.bytes.length := fun same => short (written.eq_of_length same)
  omega

/-! ## Ancestors -/

theorem ancestors_go_eq {fuel other : Nat} (enough : p.bytes.length < fuel)
    (also : p.bytes.length < other) : ancestors.go fuel p = ancestors.go other p := by
  induction fuel generalizing p other with
  | zero => omega
  | succ fuel ih =>
    cases other with
    | zero => omega
    | succ other =>
      rw [ancestors.go, ancestors.go]
      cases h : p.parent? with
      | none => rfl
      | some q =>
        have less := length_lt_of_parent? h
        have further : ancestors.go fuel q = ancestors.go other q := ih (by omega) (by omega)
        rw [Option.elim_some, Option.elim_some, further]

/-- The ancestors of a path are itself and those of its parent. -/
theorem ancestors_eq (p : Path) : p.ancestors = p :: p.parent?.elim [] ancestors := by
  rw [ancestors, ancestors.go]
  cases h : p.parent? with
  | none => rfl
  | some q =>
    have less := length_lt_of_parent? h
    rw [Option.elim_some, Option.elim_some, ancestors,
      ancestors_go_eq less (Nat.lt_succ_self _)]

/-! ## Separators and names behind a path -/

/-- Separators behind a path are no steps. -/
theorem steps_append_separators (bytes : Bytes) {seps : Bytes} (all : ∀ b ∈ seps, b = separator) :
    steps ⟨bytes ++ seps⟩ = steps ⟨bytes⟩ := by
  cases seps with
  | nil => rw [List.append_nil]
  | cons b seps =>
    have none : ∀ seps : Bytes, (∀ b ∈ seps, b = separator) → (parts seps).filter leads = [] := by
      intro seps all
      induction seps with
      | nil => rfl
      | cons b seps ih =>
        obtain ⟨rfl, later⟩ := List.forall_mem_cons.mp all
        simp [parts, ih later]
    obtain ⟨rfl, later⟩ := List.forall_mem_cons.mp all
    rw [steps, parts_append_separator, List.filter_append, none seps later, List.append_nil]
    rfl

theorem isAbsolute_ofString {name : String} (whole : separator ∉ Utf8.encode name) :
    (ofString name).isAbsolute = false := by
  cases absolute : (ofString name).isAbsolute with
  | false => rfl
  | true =>
    have first : (Utf8.encode name).head? = some separator := by
      simpa [Path.isAbsolute, ofString] using absolute
    exact absurd (List.mem_of_head? first) whole

/-- How a path is written with a name behind it. -/
theorem parts_child (p : Path) {name : String} (whole : separator ∉ Utf8.encode name) :
    (p.child name).isAbsolute = p.isAbsolute ∧ ∃ front : List Bytes,
      parts (p.child name).bytes = front ++ [Utf8.encode name] ∧ front.filter leads = p.steps := by
  have single := parts_of_not_mem whole
  have relative := isAbsolute_ofString whole
  obtain ⟨bytes⟩ := p
  rcases List.eq_nil_or_concat' bytes with rfl | ⟨shorter, last, rfl⟩
  · have is : (⟨[]⟩ : Path).child name = ofString name := by
      simp [child, join, relative]
    rw [is]
    exact ⟨relative, [], single, rfl⟩
  · have head (more : Bytes) :
        Path.isAbsolute ⟨shorter ++ [last] ++ more⟩ = Path.isAbsolute ⟨shorter ++ [last]⟩ := by
      cases shorter <;> rfl
    by_cases sep : last = separator
    · subst sep
      have is : (⟨shorter ++ [separator]⟩ : Path).child name =
          ⟨shorter ++ [separator] ++ Utf8.encode name⟩ := by
        rw [child, join, relative]
        simp [ofString]
      rw [is]
      refine ⟨head _, parts shorter, ?_, ?_⟩
      · rw [List.append_assoc, List.singleton_append, parts_append_separator, single]
      · exact (steps_append_separators shorter (fun b h => List.mem_singleton.mp h)).symm
    · have is : (⟨shorter ++ [last]⟩ : Path).child name =
          ⟨shorter ++ [last] ++ separator :: Utf8.encode name⟩ := by
        rw [child, join, relative]
        simp [ofString, sep]
      rw [is]
      refine ⟨head _, parts (shorter ++ [last]), ?_, rfl⟩
      rw [parts_append_separator, single]

theorem steps_child (p : Path) {name : String} (whole : separator ∉ Utf8.encode name)
    (goes : leads (Utf8.encode name) = true) :
    (p.child name).steps = p.steps ++ [Utf8.encode name] := by
  obtain ⟨-, front, eq, steps⟩ := parts_child p whole
  rw [Path.steps, eq, List.filter_append, steps]
  simp [goes]

theorem lastPart_child (p : Path) {name : String} (whole : separator ∉ Utf8.encode name) :
    (p.child name).lastPart = Utf8.encode name := by
  obtain ⟨-, front, eq, -⟩ := parts_child p whole
  rw [lastPart, eq]
  simp [List.getLastD_eq_getLast?]

end Path

end LanguageClient
