import LanguageClient.Proofs.Files.Places

/-!
# What becomes of a tree

Each operation that succeeds changes the tree at the places that its paths name, and
one that fails leaves the tree as it was.
-/

set_option autoImplicit false

namespace LanguageClient

namespace FileTree

variable {t t' : FileTree} {p q : Path} {place : Place}

/-- The content of the file at a place, nothing if there is no file. -/
def contentAt (t : FileTree) (place : Place) : ByteArray :=
  match t.node? place with
  | some (.file content) => content
  | _ => .empty

theorem contentAt_of_node? {other : Place} (h : t'.node? other = t.node? place) :
    t'.contentAt other = t.contentAt place := by
  simp [contentAt, h]

theorem removeFile_eq_ok (h : t.removeFile p = .ok t') :
    (∃ content, t.stat p = .ok (.file content)) ∧ t.erase (t.destination p) = t' := by
  cases resolved : t.resolve p with
  | error e => simp [removeFile, resolved, bind, Except.bind] at h
  | ok place =>
    obtain ⟨nameable, reached, rfl⟩ := resolve_eq_ok_iff.1 resolved
    cases there : t.node? (t.destination p) with
    | none => simp [removeFile, resolved, there, bind, Except.bind] at h
    | some node =>
      cases node with
      | folder => simp [removeFile, resolved, there, bind, Except.bind] at h
      | file content =>
        refine ⟨⟨content, stat_eq_ok_iff.2 ⟨nameable, reached, there⟩⟩, ?_⟩
        simpa [removeFile, resolved, there, bind, Except.bind] using h

theorem getLast?_parts_eq (p : Path) : (Path.parts p.bytes).getLast? = some p.lastPart := by
  rw [← p.parts_append_lastPart]
  simp

/-- A file is written where a path with a name leads to, unless there is a folder. -/
theorem change_eq_ok_iff {f : ByteArray → ByteArray} :
    t.change p f = .ok t' ↔
      p.lastPart ≠ [] ∧ t.resolve p = .ok (t.destination p) ∧
        t.node? (t.destination p) ≠ some .folder ∧
        t.put (t.destination p) (.file (f (t.contentAt (t.destination p)))) = t' := by
  by_cases unnamed : p.lastPart = []
  · have refused : ∀ t'', t.change p f ≠ .ok t'' := by
      intro t'' changed
      simp only [change, placeForFile, getLast?_parts_eq, unnamed] at changed
      cases checked : check p with
      | error e => simp [checked, bind, Except.bind] at changed
      | ok _ =>
        generalize t.walk p _ = walked at changed
        cases walked with
        | error e => simp [checked, bind, Except.bind] at changed
        | ok place => simp [checked, bind, Except.bind] at changed
    exact ⟨fun changed => absurd changed (refused t'), fun h => absurd unnamed h.1⟩
  have named : t.placeForFile p = t.resolve p := by
    cases checked : check p with
    | error e => simp [placeForFile, resolve, checked, bind, Except.bind]
    | ok _ =>
      simp [placeForFile, checked, getLast?_parts_eq, unnamed, bind, Except.bind]
  cases resolved : t.resolve p with
  | error e => simp [change, named, resolved, bind, Except.bind]
  | ok place =>
    obtain ⟨-, -, rfl⟩ := resolve_eq_ok_iff.1 resolved
    cases there : t.node? (t.destination p) with
    | none =>
      simp [change, named, resolved, there, unnamed, contentAt, bind, Except.bind]
    | some node =>
      cases node with
      | folder => simp [change, named, resolved, there, bind, Except.bind]
      | file content =>
        simp [change, named, resolved, there, unnamed, contentAt, bind, Except.bind]

/-- All folders stay when something is put where there is none. -/
theorem hasFoldersOf_put {node : Node} (free : t.node? place ≠ some .folder) :
    (t.put place node).HasFoldersOf t := by
  refine ⟨rfl, fun other folder => ?_⟩
  have elsewhere : other ≠ place := by
    rintro rfl
    exact free folder
  rw [node?_put_of_ne elsewhere, folder]

/-- A file whose content has been changed is there. -/
theorem exists_of_change {f : ByteArray → ByteArray} (h : t.change p f = .ok t') :
    t'.exists p = true := by
  obtain ⟨-, resolved, free, changed⟩ := change_eq_ok_iff.1 h
  obtain ⟨nameable, reached, -⟩ := resolve_eq_ok_iff.1 resolved
  have folders : t'.HasFoldersOf t := changed ▸ hasFoldersOf_put free
  have here : t'.node? (t'.destination p) =
      some (.file (f (t.contentAt (t.destination p)))) := by
    rw [destination_congr folders.current, ← changed]
    exact node?_put_self (ne_nil_of_node? free)
  exact exists_iff.2 ⟨_, stat_eq_ok_iff.2 ⟨nameable, reached.of_hasFoldersOf folders, here⟩⟩

theorem rename_eq_ok (h : t.rename p q = .ok t') :
    ∃ node, t.stat p = .ok node ∧ t.resolve q = .ok (t.destination q) ∧
      (t.destination p = t.destination q ∧ t = t' ∨
        ¬ t.destination p <+: t.destination q ∧
          t.mayReplace (t.destination q) node = .ok () ∧
          t.move (t.destination p) (t.destination q) = t') := by
  cases sourced : t.resolve p with
  | error e => simp [rename, sourced, bind, Except.bind] at h
  | ok source =>
    cases targeted : t.resolve q with
    | error e => simp [rename, sourced, targeted, bind, Except.bind] at h
    | ok target =>
      obtain ⟨nameable, reached, rfl⟩ := resolve_eq_ok_iff.1 sourced
      obtain ⟨-, -, rfl⟩ := resolve_eq_ok_iff.1 targeted
      simp only [rename, sourced, targeted, bind, Except.bind] at h
      split at h
      · cases h
      · split at h
        · cases h
        case h_2 node there =>
          refine ⟨node, stat_eq_ok_iff.2 ⟨nameable, reached, there⟩, rfl, ?_⟩
          split at h
          case isTrue same => exact .inl ⟨same, by simpa using h⟩
          case isFalse =>
            split at h
            · cases h
            case isFalse apart =>
              cases free : t.mayReplace (t.destination q) node with
              | error e => simp [free] at h
              | ok _ =>
                refine .inr ⟨by simpa using apart, rfl, ?_⟩
                simpa [free] using h

/-! ## Making folders -/

/-- A tree in which folders have been made where there was nothing. -/
structure HasMoreFolders (t' t : FileTree) : Prop where
  current : t'.current = t.current
  node : ∀ place, t'.node? place = t.node? place ∨
    t.node? place = none ∧ t'.node? place = some .folder

theorem HasMoreFolders.refl (t : FileTree) : t.HasMoreFolders t := ⟨rfl, fun _ => .inl rfl⟩

theorem HasMoreFolders.trans {t'' : FileTree} (h' : t''.HasMoreFolders t')
    (h : t'.HasMoreFolders t) : t''.HasMoreFolders t := by
  refine ⟨h'.current.trans h.current, fun place => ?_⟩
  rcases h'.node place with same' | ⟨none', made'⟩
  · rw [same']
    exact h.node place
  · rcases h.node place with same | ⟨_, made⟩
    · exact .inr ⟨same ▸ none', made'⟩
    · rw [made] at none'
      cases none'

theorem HasMoreFolders.contentAt (h : t'.HasMoreFolders t) (place : Place) :
    t'.contentAt place = t.contentAt place := by
  rcases h.node place with same | ⟨missing, made⟩
  · exact contentAt_of_node? same
  · simp [FileTree.contentAt, missing, made]

theorem hasMoreFolders_put (h : t.node? place = none) : (t.put place .folder).HasMoreFolders t := by
  refine ⟨rfl, fun other => ?_⟩
  by_cases here : other = place
  · subst here
    have root : other ≠ [] := ne_nil_of_node? (t := t) (by simp [h])
    exact .inr ⟨h, node?_put_self root⟩
  · exact .inl (node?_put_of_ne here)

/-- A folder is made where there is nothing. -/
theorem makeFolder_eq_ok (h : t.makeFolder p = .ok t') :
    check p = .ok () ∧ (trimmed p).bytes ≠ [] ∧
      t.resolve (trimmed p) = .ok (t.destination (trimmed p)) ∧
      t.node? (t.destination (trimmed p)) = none ∧
      t' = t.put (t.destination (trimmed p)) .folder := by
  cases checked : check p with
  | error e => simp [makeFolder, checked, bind, Except.bind] at h
  | ok _ =>
    by_cases bare : (trimmed p).bytes = []
    · simp [makeFolder, checked, bare, bind, Except.bind] at h
    cases resolved : t.resolve (trimmed p) with
    | error e => simp [makeFolder, checked, bare, resolved, bind, Except.bind] at h
    | ok place =>
      obtain ⟨-, -, rfl⟩ := resolve_eq_ok_iff.1 resolved
      cases there : t.node? (t.destination (trimmed p)) with
      | some node => simp [makeFolder, checked, bare, resolved, there, bind, Except.bind] at h
      | none =>
        refine ⟨rfl, bare, rfl, rfl, ?_⟩
        simpa [makeFolder, checked, bare, resolved, there, bind, Except.bind] using h.symm

theorem hasMoreFolders_of_makeFolder (h : t.makeFolder p = .ok t') : t'.HasMoreFolders t := by
  obtain ⟨-, -, -, nothing, rfl⟩ := makeFolder_eq_ok h
  exact hasMoreFolders_put nothing

end FileTree

namespace FileWork

variable {α β : Type} {t t' : FileTree}

@[simp] theorem on_pure (a : α) : (pure a : FileWork α).on t = (.ok a, t) := rfl

@[simp] theorem on_throw (e : IoError) : (throw e : FileWork α).on t = (.error e, t) := rfl

theorem on_bind_ok {x : FileWork α} {f : α → FileWork β} {a : α} (h : x.on t = (.ok a, t')) :
    (x >>= f).on t = (f a).on t' := by
  show (match x.on t with | (r, t') => (ExceptT.bindCont f r).run t') = _
  rw [h]
  rfl

theorem on_bind_error {x : FileWork α} {f : α → FileWork β} {e : IoError}
    (h : x.on t = (.error e, t')) : (x >>= f).on t = (.error e, t') := by
  show (match x.on t with | (r, t') => (ExceptT.bindCont f r).run t') = _
  rw [h]
  rfl

@[simp] theorem on_get_bind (f : FileTree → FileWork α) :
    ((get : FileWork FileTree) >>= f).on t = (f t).on t := rfl

theorem on_change (f : FileTree → Except IoError FileTree) :
    (change f).on t = match f t with
      | .ok t' => (.ok (), t')
      | .error e => (.error e, t) := by
  show (match f t with | .ok t' => (set t' : FileWork Unit) | .error e => throw e).on t = _
  cases f t with
  | ok t' => rfl
  | error e => rfl

open FileTree

theorem makeOrFind_hasMoreFolders (p : Path) : ((makeOrFind p).on t).2.HasMoreFolders t := by
  rw [makeOrFind, on_get_bind]
  cases made : t.makeFolder p with
  | ok t' => exact hasMoreFolders_of_makeFolder made
  | error e =>
    by_cases found : t.isFolder p
    · simp [found, HasMoreFolders.refl]
    · simp [found, HasMoreFolders.refl]

theorem makeFoldersWithin_hasMoreFolders (fuel : Nat) (p : Path) :
    ((makeFoldersWithin fuel p).on t).2.HasMoreFolders t := by
  induction fuel generalizing p with
  | zero => exact HasMoreFolders.refl t
  | succ fuel ih =>
    rw [makeFoldersWithin]
    split
    · exact HasMoreFolders.refl t
    · rw [on_get_bind]
      split
      -- The folder above is not there, and is made first.
      case h_1 =>
        rw [if_pos rfl]
        cases p.parent? with
        | none => exact HasMoreFolders.refl t
        | some above =>
          show ((makeFoldersWithin fuel above >>= fun _ => makeOrFind p).on t).2.HasMoreFolders t
          have lower := ih above
          rcases made : (makeFoldersWithin fuel above).on t with ⟨e | ok, t'⟩
          · rw [made] at lower
            rw [on_bind_error made]
            exact lower
          · rw [made] at lower
            rw [on_bind_ok made]
            exact (makeOrFind_hasMoreFolders p).trans lower
      case h_2 =>
        rw [if_neg (by simp)]
        exact makeOrFind_hasMoreFolders p

theorem makeFolders_hasMoreFolders (p : Path) : ((makeFolders p).on t).2.HasMoreFolders t :=
  makeFoldersWithin_hasMoreFolders _ p

end FileWork

end LanguageClient
