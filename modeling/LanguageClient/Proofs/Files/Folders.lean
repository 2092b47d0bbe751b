import LanguageClient.Proofs.Files.Parents
import LanguageClient.Proofs.Files.Work

/-!
# Making folders

A folder is made with those it lies in, from the top downwards (`Made`).  In a tree in which
everything lies in a folder, and for a path that never goes up out of a folder that is not
there (`Direct`), only what the path lies under is made, and making it again changes nothing
and comes to the same end.
-/

set_option autoImplicit false

namespace LanguageClient

namespace FileTree

open LanguageClient.Path (steps leads)

variable {t t' : FileTree} {p q : Path} {place : Place} {node : Node} {part : Bytes}

/-! ## Walking by steps -/

theorem enter_of_not_leads (rests : leads part = false) :
    t.enter place part = t.enter place [] := by
  rcases Path.leads_eq_false_iff.mp rests with rfl | rfl <;> simp [enter]

/-- To stay in a place is only to ask whether it is a folder. -/
theorem enter_nil_bind (t : FileTree) (place : Place) (part : Bytes) :
    (t.enter place [] >>= fun next => t.enter next part) = t.enter place part := by
  cases there : t.node? place with
  | none => simp [enter, there, bind, Except.bind]
  | some node =>
    cases node with
    | file => simp [enter, there, bind, Except.bind]
    | folder => simp [enter, there, bind, Except.bind]

theorem foldlM_parts (t : FileTree) {parts : List Bytes} (some : parts ≠ []) (place : Place) :
    parts.foldlM t.enter place = (parts.filter leads).foldlM t.enter place >>= fun next =>
      if leads (parts.getLastD []) then .ok next else t.enter next [] := by
  induction parts generalizing place with
  | nil => exact absurd rfl some
  | cons a rest ih =>
    cases rest with
    | nil =>
      cases goes : leads a with
      | true =>
        simp only [List.foldlM_cons, List.foldlM_nil, List.filter_cons, goes, if_true,
          List.filter_nil, List.getLastD_cons, List.getLastD_nil, bind_assoc, pure_bind]
        rfl
      | false =>
        simp only [List.foldlM_cons, List.foldlM_nil, List.filter_cons, goes, if_false,
          List.filter_nil, List.getLastD_cons, List.getLastD_nil, pure_bind, bind_pure,
          enter_of_not_leads goes, Bool.false_eq_true]
    | cons b rest =>
      have later := fun next => ih (by simp) next
      have last : (a :: b :: rest).getLastD [] = (b :: rest).getLastD [] := rfl
      rw [List.foldlM_cons, last]
      cases goes : leads a with
      | true =>
        simp only [later, List.filter_cons_of_pos goes, List.foldlM_cons, bind_assoc]
      | false =>
        -- A part that does not lead elsewhere asks for a folder, as the next part does anyway.
        have stays : (t.enter place a >>= fun next => (b :: rest).foldlM t.enter next) =
            (b :: rest).foldlM t.enter place := by
          simp only [List.foldlM_cons, enter_of_not_leads goes, ← bind_assoc, enter_nil_bind]
        have front : (a :: b :: rest).filter leads = (b :: rest).filter leads :=
          List.filter_cons_of_neg (by simp [goes])
        rw [stays, later, front]

/-- A path leads where its steps lead, and if it does not end with a step that has to be a
folder. -/
theorem walk_parts (t : FileTree) (p : Path) :
    t.walk p (Path.parts p.bytes) = t.walk p p.steps >>= fun next =>
      if leads p.lastPart then .ok next else t.enter next [] :=
  foldlM_parts t (Path.parts_ne_nil p.bytes) _

theorem walk_congr (h : q.isAbsolute = p.isAbsolute) (parts : List Bytes) :
    t.walk q parts = t.walk p parts := by rw [walk, walk, h]

theorem start_congr (h : q.isAbsolute = p.isAbsolute) : t.start q = t.start p := by
  rw [start, start, h]

theorem destination_eq_steps (t : FileTree) (p : Path) :
    t.destination p = p.steps.foldl lead (t.start p) := by
  rw [destination, steps, List.foldl_filter]
  congr 1
  funext place part
  split
  · rfl
  · rename_i rests
    simp only [Bool.not_eq_true] at rests
    rw [lead, if_pos (Path.leads_eq_false_iff.mp rests)]

/-- The steps of a path lead to its destination if they lead anywhere. -/
theorem destination_of_walk (h : t.walk p p.steps = .ok place) : place = t.destination p := by
  rw [destination_eq_steps, walk_eq_ok h]

theorem stat_eq_ok_iff_steps : t.stat p = .ok node ↔ check p = .ok () ∧
    t.walk p p.steps = .ok (t.destination p) ∧ t.node? (t.destination p) = some node ∧
      (leads p.lastPart = true ∨ node = .folder) := by
  cases checked : check p with
  | error e => simp [stat, resolve, checked, bind, Except.bind]
  | ok _ =>
    have led := walk_parts t p
    cases walked : t.walk p p.steps with
    | error e =>
      simp [stat, resolve, checked, led, walked, bind, Except.bind]
    | ok next =>
      obtain rfl := destination_of_walk walked
      cases goes : leads p.lastPart with
      | true =>
        have resolved : t.resolve p = .ok (t.destination p) := by
          simp [resolve, checked, led, walked, goes, bind, Except.bind]
        cases there : t.node? (t.destination p) <;>
          simp [stat, resolved, there, bind, Except.bind]
      | false =>
        have resolved : t.resolve p = t.enter (t.destination p) [] := by
          simp [resolve, checked, led, walked, goes, bind, Except.bind]
        cases there : t.node? (t.destination p) with
        | none => simp [stat, resolved, enter, there, bind, Except.bind]
        | some found =>
          cases found with
          | file => simp +contextual [stat, resolved, enter, there, bind, Except.bind, eq_comm]
          | folder => simp +contextual [stat, resolved, enter, there, bind, Except.bind, eq_comm]

theorem isFolder_iff : t.isFolder p = true ↔ check p = .ok () ∧
    t.walk p p.steps = .ok (t.destination p) ∧
      t.node? (t.destination p) = some .folder := by
  have found : t.isFolder p = true ↔ t.stat p = .ok .folder := by
    unfold isFolder
    split
    · simp_all
    · simp_all
  rw [found, stat_eq_ok_iff_steps]
  simp

/-! ## Well-formed trees -/

/-- Whether everything lies in a folder. -/
def WellFormed (t : FileTree) : Prop :=
  ∀ place name, t.node? (place ++ [name]) ≠ none → t.node? place = some .folder

/-- Everything in a tree lies in a folder if this is so of all its nodes. -/
theorem wellFormed_of_nodes (h : ∀ e ∈ t.nodes, t.node? e.1.dropLast = some .folder) :
    t.WellFormed := by
  intro place name there
  rw [node?_of_ne (by simp)] at there
  cases found : t.nodes.find? (·.1 = place ++ [name]) with
  | none => simp [found] at there
  | some e =>
    have here : e.1 = place ++ [name] := by simpa using List.find?_some found
    have above := h e (List.mem_of_find?_eq_some found)
    rwa [here, List.dropLast_concat] at above

theorem WellFormed.folder_of_prefix (h : t.WellFormed) {above : Place} (within : above <+: place)
    (other : above ≠ place) (there : t.node? place ≠ none) : t.node? above = some .folder := by
  obtain ⟨rest, rfl⟩ := within
  induction rest using List.reverseRecOn with
  | nil => exact absurd (List.append_nil above).symm other
  | append_singleton rest name ih =>
    rw [← List.append_assoc] at there
    have next := h _ name there
    by_cases last : rest = []
    · subst last
      rwa [List.append_nil] at next
    · exact ih (by simpa using last) (by simp [next])

/-- Whether a path never goes up out of a folder that is not there. -/
def Direct (t : FileTree) (p : Path) : Prop :=
  ∀ front, front ++ [[Path.dot, Path.dot]] <+: p.steps →
    t.walk p (front ++ [[Path.dot, Path.dot]]) ≠ .error .notFound

theorem Direct.of_prefix (h : t.Direct p) (absolute : q.isAbsolute = p.isAbsolute)
    (within : q.steps <+: p.steps) : t.Direct q := by
  intro front up
  rw [walk_congr absolute]
  exact h front (up.trans within)

/-- A name behind a path does not go up. -/
theorem Direct.child (h : t.Direct p) {name : String}
    (whole : Path.separator ∉ Utf8.encode name) (goes : leads (Utf8.encode name) = true)
    (down : Utf8.encode name ≠ [Path.dot, Path.dot]) : t.Direct (p.child name) := by
  intro front up
  rw [walk_congr (Path.parts_child p whole).1]
  rw [Path.steps_child p whole goes] at up
  rcases List.prefix_concat_iff.mp up with last | within
  · exact absurd (List.append_inj_right' last rfl) (by simpa using down.symm)
  · exact h front within

/-- A path that never goes up does not go up out of a folder that is not there. -/
theorem direct_of_not_mem (down : [Path.dot, Path.dot] ∉ p.steps) : t.Direct p :=
  fun _ up => absurd (up.subset (by simp)) down

theorem WellFormed.folder_dropLast (h : t.WellFormed) (folder : t.node? place = some .folder) :
    t.node? place.dropLast = some .folder := by
  rcases List.eq_nil_or_concat' place with rfl | ⟨above, name, rfl⟩
  · exact node?_nil t
  · rw [List.dropLast_concat]
    exact h above name (by simp [folder])

theorem lead_up (place : Place) : lead place [Path.dot, Path.dot] = place.dropLast := by
  simp [lead]

theorem lead_of_leads (goes : leads part = true) (down : part ≠ [Path.dot, Path.dot]) :
    lead place part = place ++ [part] := by
  have stays : ¬ (part = [] ∨ part = [Path.dot]) := fun rests => by
    rw [Path.leads_eq_false_iff.mpr rests] at goes
    cases goes
  rw [lead, if_neg stays, if_neg down]

/-- A name behind a path leads one place further. -/
theorem destination_child (t : FileTree) (p : Path) {name : String}
    (whole : Path.separator ∉ Utf8.encode name) (goes : leads (Utf8.encode name) = true)
    (down : Utf8.encode name ≠ [Path.dot, Path.dot]) :
    t.destination (p.child name) = t.destination p ++ [Utf8.encode name] := by
  rw [destination_eq_steps, destination_eq_steps, Path.steps_child p whole goes,
    List.foldl_append, start_congr (Path.parts_child p whole).1]
  simp [lead_of_leads goes down]

/-! ## Trees with more folders -/

theorem HasMoreFolders.hasFoldersOf (h : t'.HasMoreFolders t) : t'.HasFoldersOf t := by
  refine ⟨h.current, fun place there => ?_⟩
  rcases h.node place with same | ⟨none, -⟩
  · rw [same, there]
  · rw [there] at none
    cases none

theorem HasMoreFolders.file {content : ByteArray} (h : t'.HasMoreFolders t)
    (there : t'.node? place = some (.file content)) : t.node? place = some (.file content) := by
  rcases h.node place with same | ⟨-, folder⟩
  · rw [← same, there]
  · rw [there] at folder
    cases folder

theorem prefix_foldl_lead {parts : List Bytes} (down : [Path.dot, Path.dot] ∉ parts)
    (place : Place) : place <+: parts.foldl lead place := by
  induction parts generalizing place with
  | nil => exact List.prefix_rfl
  | cons a rest ih =>
    rw [List.mem_cons, not_or] at down
    refine List.IsPrefix.trans ?_ (ih down.2 _)
    rw [lead, if_neg (Ne.symm down.1)]
    split
    · exact List.prefix_rfl
    · exact List.prefix_append _ _

/-- A walk to something that was there before some folders were made was possible before,
since what is missing on the way is never left upwards. -/
theorem foldlM_enter_of_more (whole : t.WellFormed) (more : t'.HasMoreFolders t)
    {parts : List Bytes} {target : Place}
    (direct : ∀ front, front ++ [[Path.dot, Path.dot]] <+: parts →
      (front ++ [[Path.dot, Path.dot]]).foldlM t.enter place ≠ .error .notFound)
    (ok : parts.foldlM t'.enter place = .ok target) (there : t.node? target ≠ none) :
    parts.foldlM t.enter place = .ok target := by
  induction parts generalizing place with
  | nil => exact ok
  | cons a rest ih =>
    rw [List.foldlM_cons] at ok ⊢
    cases entered' : t'.enter place a with
    | error e => simp [entered', bind, Except.bind] at ok
    | ok next =>
      simp only [entered', bind, Except.bind] at ok
      obtain ⟨folder', short, leadsTo⟩ := enter_eq_ok_iff.mp entered'
      cases here : t.node? place with
      | some node =>
        obtain rfl : node = .folder := by
          cases node with
          | folder => rfl
          | file content =>
            rcases more.node place with same | ⟨none, -⟩
            · rw [same, here] at folder'
              cases folder'
            · rw [here] at none
              cases none
        have entered : t.enter place a = .ok next := enter_eq_ok_iff.mpr ⟨here, short, leadsTo⟩
        simp only [entered, bind, Except.bind]
        refine ih (fun front up => ?_) ok
        have step := direct (a :: front) (List.cons_prefix_cons.mpr ⟨rfl, up⟩)
        rw [List.cons_append, List.foldlM_cons] at step
        simpa only [entered, bind, Except.bind] using step
      | none =>
        exfalso
        have missing : ∀ first later, (first :: later : List Bytes).foldlM t.enter place =
            .error .notFound := by
          intro first later
          rw [List.foldlM_cons]
          simp [enter, here, bind, Except.bind]
        have down : [Path.dot, Path.dot] ∉ a :: rest := by
          intro up
          obtain ⟨front, behind, eq⟩ := List.append_of_mem up
          have before : front ++ [[Path.dot, Path.dot]] <+: a :: rest := by
            rw [eq]
            exact ⟨behind, by simp⟩
          obtain ⟨first, later, is⟩ := List.exists_cons_of_ne_nil
            (show front ++ [[Path.dot, Path.dot]] ≠ [] by simp)
          exact direct front before (is ▸ missing first later)
        have named : (a :: rest).foldl lead place = target := by
          rw [List.foldl_cons, leadsTo]
          exact foldl_lead_of_foldlM ok
        have within := named ▸ prefix_foldl_lead down place
        have other : place ≠ target := by
          rintro rfl
          exact there here
        have folder := whole.folder_of_prefix within other there
        rw [here] at folder
        cases folder

theorem walk_of_more (whole : t.WellFormed) (direct : t.Direct p) (more : t'.HasMoreFolders t)
    (ok : t'.walk p p.steps = .ok place) (there : t.node? place ≠ none) :
    t.walk p p.steps = .ok place := by
  have start : (if p.isAbsolute then [] else t'.current) =
      if p.isAbsolute then [] else t.current := by rw [more.current]
  rw [walk, start] at ok
  exact foldlM_enter_of_more whole more direct ok there

/-- What there is now at a path was there before, if making folders did not reach its place. -/
theorem exists_of_more (whole : t.WellFormed) (direct : t.Direct p) (more : t'.HasMoreFolders t)
    (kept : t'.node? (t.destination p) = t.node? (t.destination p))
    (there : t'.exists p = true) : t.exists p = true := by
  obtain ⟨node, found⟩ := exists_iff.mp there
  obtain ⟨checked, walked, here, ends⟩ := stat_eq_ok_iff_steps.mp found
  rw [destination_congr more.current] at walked here
  rw [kept] at here
  have walked := walk_of_more whole direct more walked (by simp [here])
  exact exists_iff.mpr ⟨node, stat_eq_ok_iff_steps.mpr ⟨checked, walked, here, ends⟩⟩

/-! ## Making one folder -/

theorem check_eq_ok_iff :
    check p = .ok () ↔ 0 ∉ p.bytes ∧ p.bytes ≠ [] ∧ p.bytes.length < pathLimit := by
  unfold check
  split
  · simp_all
  · split
    · simp_all
    · split <;> simp_all

/-- What a path begins with is a path as well. -/
theorem check_of_front (checked : check p = .ok ()) (within : q.bytes <+: p.bytes)
    (filled : q.bytes ≠ []) : check q = .ok () := by
  obtain ⟨free, -, short⟩ := check_eq_ok_iff.mp checked
  have less := within.length_le
  exact check_eq_ok_iff.mpr ⟨fun zero => free (within.subset zero), filled, by omega⟩

theorem trimmed_append (p : Path) :
    ∃ seps, p.bytes = (trimmed p).bytes ++ seps ∧ ∀ b ∈ seps, b = Path.separator := by
  refine ⟨(p.bytes.reverse.takeWhile (· = Path.separator)).reverse, ?_, fun b among => ?_⟩
  · rw [trimmed, ← List.reverse_append, List.takeWhile_append_dropWhile, List.reverse_reverse]
  · have kept := List.mem_takeWhile_imp (List.mem_reverse.mp among)
    simpa using kept

theorem steps_trimmed (p : Path) : (trimmed p).steps = p.steps := by
  obtain ⟨seps, eq, all⟩ := trimmed_append p
  have same : p = ⟨(trimmed p).bytes ++ seps⟩ := congrArg Path.mk eq
  rw [same, Path.steps_append_separators _ all, ← same]

theorem trimmed_spec (checked : check p = .ok ()) (filled : (trimmed p).bytes ≠ []) :
    check (trimmed p) = .ok () ∧ (trimmed p).isAbsolute = p.isAbsolute := by
  obtain ⟨seps, eq, -⟩ := trimmed_append p
  have within : (trimmed p).bytes <+: p.bytes := ⟨seps, eq.symm⟩
  refine ⟨check_of_front checked within filled, ?_⟩
  obtain ⟨b, rest, is⟩ := List.exists_cons_of_ne_nil filled
  rw [is] at eq
  simp [Path.isAbsolute, eq, is]

/-- A folder is made where the steps of a path lead. -/
theorem makeFolder_eq (checked : check p = .ok ()) (filled : (trimmed p).bytes ≠ []) :
    t.makeFolder p = t.walk p p.steps >>= fun next =>
      (if leads (trimmed p).lastPart then .ok next else t.enter next []) >>= fun place =>
        match t.node? place with
        | some _ => .error .alreadyExists
        | none => .ok (t.put place .folder) := by
  obtain ⟨checked', absolute⟩ := trimmed_spec checked filled
  have resolved : t.resolve (trimmed p) = t.walk p p.steps >>= fun next =>
      if leads (trimmed p).lastPart then .ok next else t.enter next [] := by
    rw [resolve, checked', walk_parts, steps_trimmed, walk_congr absolute]
    rfl
  rw [makeFolder, checked, if_neg filled, resolved, bind_assoc]
  rfl

/-- A path of separators only has no steps, so that it can only lead to the root. -/
theorem steps_of_trimmed (bare : (trimmed p).bytes = []) : p.steps = [] := by
  rw [← steps_trimmed, steps, bare]
  rfl

theorem makeFolder_of_walk_error {e : IoError} (checked : check p = .ok ())
    (failed : t.walk p p.steps = .error e) : t.makeFolder p = .error e := by
  have filled : (trimmed p).bytes ≠ [] := by
    intro bare
    rw [steps_of_trimmed bare] at failed
    cases failed
  rw [makeFolder_eq checked filled, failed]
  rfl

theorem makeFolder_of_isFolder (h : t.isFolder p = true) :
    t.makeFolder p = .error .alreadyExists := by
  obtain ⟨checked, walked, folder⟩ := isFolder_iff.mp h
  by_cases bare : (trimmed p).bytes = []
  · rw [makeFolder, checked, if_pos bare]
    rfl
  · have stays : t.enter (t.destination p) [] = .ok (t.destination p) := by
      simp [enter, folder]
    rw [makeFolder_eq checked bare, walked]
    cases leads (trimmed p).lastPart <;> simp [stays, folder, bind, Except.bind]

/-- A new folder is where the steps of its path lead. -/
theorem made_of_makeFolder (h : t.makeFolder p = .ok t') : check p = .ok () ∧
    t.walk p p.steps = .ok (t.destination p) ∧ t.node? (t.destination p) = none ∧
      t' = t.put (t.destination p) .folder := by
  obtain ⟨checked, filled, -⟩ := makeFolder_eq_ok h
  refine ⟨checked, ?_⟩
  rw [makeFolder_eq checked filled] at h
  cases walked : t.walk p p.steps with
  | error e => simp [walked, bind, Except.bind] at h
  | ok next =>
    obtain rfl := destination_of_walk walked
    cases there : t.node? (t.destination p) with
    | some node =>
      cases goes : leads (trimmed p).lastPart <;> cases node <;>
        simp [walked, goes, enter, there, bind, Except.bind] at h
    | none =>
      cases goes : leads (trimmed p).lastPart with
      | false => simp [walked, goes, enter, there, bind, Except.bind] at h
      | true => exact ⟨rfl, rfl, by simpa [walked, goes, there, bind, Except.bind] using h.symm⟩

/-- Why a folder cannot be made because something is not there: it is missing on the way, or
it is the folder itself, and the path ends with a dot in it. -/
theorem walk_of_missing (filled : p.bytes ≠ []) (missing : t.makeFolder p = .error .notFound) :
    check p = .ok () ∧ (t.walk p p.steps = .error .notFound ∨
      t.walk p p.steps = .ok (t.destination p) ∧ t.node? (t.destination p) = none) := by
  have checked : check p = .ok () := by
    cases checked : check p with
    | ok _ => rfl
    | error e =>
      have is : e = .notFound := by
        simpa [makeFolder, checked, bind, Except.bind] using missing
      subst is
      rw [check, if_neg filled] at checked
      split at checked
      · cases checked
      · split at checked <;> cases checked
  refine ⟨checked, ?_⟩
  have named : (trimmed p).bytes ≠ [] := by
    intro bare
    simp [makeFolder, checked, bare, bind, Except.bind] at missing
  rw [makeFolder_eq checked named] at missing
  cases walked : t.walk p p.steps with
  | error e => simpa [walked, bind, Except.bind] using missing
  | ok next =>
    obtain rfl := destination_of_walk walked
    refine .inr ⟨rfl, ?_⟩
    cases there : t.node? (t.destination p) with
    | none => rfl
    | some node =>
      cases goes : leads (trimmed p).lastPart <;> cases node <;>
        simp [walked, goes, enter, there, bind, Except.bind] at missing

theorem isFolder_of_makeFolder (h : t.makeFolder p = .ok t') : t'.isFolder p = true := by
  have more := hasMoreFolders_of_makeFolder h
  obtain ⟨checked, walked, missing, rfl⟩ := made_of_makeFolder h
  have room : t.destination p ≠ [] := ne_nil_of_node? (t := t) (by simp [missing])
  rw [isFolder_iff, destination_congr more.current]
  exact ⟨checked, more.hasFoldersOf.walk walked, node?_put_self room⟩

/-! ## What can be made -/

/-- What it takes for a folder to be made with those it lies in: its path is one, ends with a
name, has no name that is too long, and leads through no file. -/
structure Makeable (t : FileTree) (p : Path) : Prop where
  named : p.bytes ≠ [] → check p = .ok ()
  ends : p.steps = [] ∨ leads (trimmed p).lastPart = true
  short : ∀ name ∈ p.steps, name.length ≤ maxName
  rooted : t.node? (t.start p) = some .folder
  clear : ∀ front, front <+: p.steps → ∀ content,
    t.node? (front.foldl lead (t.start p)) ≠ some (.file content)

theorem Makeable.more (h : Makeable t p) (more : t'.HasMoreFolders t) : Makeable t' p := by
  have start : t'.start p = t.start p := by rw [FileTree.start, FileTree.start, more.current]
  refine ⟨h.named, h.ends, h.short, ?_, fun front within content file => ?_⟩
  · rw [start]
    exact more.hasFoldersOf.folder _ h.rooted
  · rw [start] at file
    exact h.clear front within content (more.file file)

/-- A name at the end of a path is the end of it without separators as well. -/
theorem leads_trimmed {front name : Bytes} (is : p.bytes = front ++ name)
    (whole : Path.separator ∉ name) (goes : leads name = true) :
    leads (trimmed p).lastPart = true := by
  have filled : name ≠ [] := by
    rintro rfl
    cases goes
  have same : trimmed p = ⟨front ++ name⟩ := by
    obtain ⟨before, last, rfl⟩ := (List.eq_nil_or_concat' name).resolve_left filled
    have other : last ≠ Path.separator := by
      rintro rfl
      simp at whole
    rw [trimmed, is, ← List.append_assoc, List.reverse_append, List.reverse_singleton,
      List.singleton_append, List.dropWhile_cons_of_neg (by simpa using other)]
    simp
  rw [same, Path.lastPart, Path.parts_append whole, List.getLastD_concat]
  refine Bool.of_not_eq_false fun rests => ?_
  rcases Path.leads_eq_false_iff.mp rests with none | dotted
  · exact filled (List.append_eq_nil_iff.mp none).2
  · rcases List.append_eq_singleton_iff.mp dotted with ⟨-, rfl⟩ | ⟨-, rfl⟩
    · cases goes
    · exact filled rfl

theorem Makeable.above (h : Makeable t p) (above : p.parent? = some q) : Makeable t q := by
  obtain ⟨absolute, written, -, further⟩ := Path.parent?_spec above
  have within : q.steps <+: p.steps := by
    rcases further with ⟨name, -, further⟩ | ⟨-, empty⟩
    · exact further ▸ List.prefix_append _ _
    · obtain rfl : q = ⟨[]⟩ := congrArg Path.mk empty
      exact List.nil_prefix
  refine ⟨fun filled => ?_, ?_, fun name among => h.short name (within.subset among), ?_, ?_⟩
  · have filled' : p.bytes ≠ [] := fun none => filled (List.prefix_nil.mp (none ▸ written))
    exact check_of_front (h.named filled') written filled
  · rcases Path.ends_of_parent? above with none | ⟨front, name, is, whole, goes⟩
    · exact .inl none
    · exact .inr (leads_trimmed is whole goes)
  · rw [start_congr absolute]
    exact h.rooted
  · rw [start_congr absolute]
    exact fun front inside => h.clear front (inside.trans within)

/-- A walk through folders ends where nothing is if it does not come to its end. -/
theorem foldlM_enter_of_clear {parts : List Bytes} {place : Place}
    (short : ∀ name ∈ parts, name.length ≤ maxName)
    (clear : ∀ front, front <+: parts → ∀ content,
      t.node? (front.foldl lead place) ≠ some (.file content)) :
    parts.foldlM t.enter place = .ok (parts.foldl lead place) ∨
      parts.foldlM t.enter place = .error .notFound := by
  induction parts generalizing place with
  | nil => exact .inl rfl
  | cons a rest ih =>
    rw [List.foldlM_cons]
    cases here : t.node? place with
    | none => exact .inr (by simp [enter, here, bind, Except.bind])
    | some node =>
      cases node with
      | file content => exact absurd here (clear [] List.nil_prefix content)
      | folder =>
        have entered : t.enter place a = .ok (lead place a) :=
          enter_eq_ok_iff.mpr ⟨here, short a List.mem_cons_self, rfl⟩
        rw [entered]
        exact ih (fun name among => short name (List.mem_cons_of_mem _ among))
          fun front within => clear (a :: front) (List.cons_prefix_cons.mpr ⟨rfl, within⟩)

theorem Makeable.walk (h : Makeable t p) : t.walk p p.steps = .ok (t.destination p) ∨
    t.walk p p.steps = .error .notFound := by
  rw [destination_eq_steps]
  exact foldlM_enter_of_clear h.short h.clear

/-- A path that takes no steps leads to where it starts. -/
theorem Makeable.of_no_steps (h : Makeable t p) (none : p.steps = []) :
    t.walk p p.steps = .ok (t.destination p) ∧ t.node? (t.destination p) = some .folder := by
  rw [destination_eq_steps, none]
  exact ⟨rfl, h.rooted⟩

end FileTree

namespace FileWork

open FileTree

/-! ## Making folders from the top downwards -/

/-- How a folder is made or found where the one it lies in is there. -/
inductive Own (t : FileTree) (p : Path) : Except IoError Unit → FileTree → Prop
  | made {t' : FileTree} (new : t.makeFolder p = .ok t') : Own t p (.ok ()) t'
  | found {e : IoError} (old : t.makeFolder p = .error e) (there : t.isFolder p = true) :
      Own t p (.ok ()) t
  | refused {e : IoError} (none : t.makeFolder p = .error e) (absent : t.isFolder p = false) :
      Own t p (.error e) t

/-- How a folder is made with those it lies in, with so much fuel. -/
inductive Made : Nat → FileTree → Path → Except IoError Unit → FileTree → Prop
  | spent {t : FileTree} {p : Path} : Made 0 t p (.error .notFound) t
  | empty {fuel : Nat} {t : FileTree} {p : Path} (none : p.bytes = []) :
      Made (fuel + 1) t p (.ok ()) t
  | here {fuel : Nat} {t t' : FileTree} {p : Path} {r : Except IoError Unit}
      (filled : p.bytes ≠ []) (ready : t.makeFolder p ≠ .error .notFound) (own : Own t p r t') :
      Made (fuel + 1) t p r t'
  | top {fuel : Nat} {t : FileTree} {p : Path} (filled : p.bytes ≠ [])
      (missing : t.makeFolder p = .error .notFound) (none : p.parent? = none) :
      Made (fuel + 1) t p (.error (.other "failed to create whole tree")) t
  | failed {fuel : Nat} {t t' : FileTree} {p q : Path} {e : IoError} (filled : p.bytes ≠ [])
      (missing : t.makeFolder p = .error .notFound) (above : p.parent? = some q)
      (first : Made fuel t q (.error e) t') : Made (fuel + 1) t p (.error e) t'
  | under {fuel : Nat} {t t' t'' : FileTree} {p q : Path} {r : Except IoError Unit}
      (filled : p.bytes ≠ []) (missing : t.makeFolder p = .error .notFound)
      (above : p.parent? = some q) (first : Made fuel t q (.ok ()) t') (own : Own t' p r t'') :
      Made (fuel + 1) t p r t''

variable {t t' t'' : FileTree} {p q : Path} {r : Except IoError Unit} {e : IoError} {fuel : Nat}

theorem on_makeOrFind (t : FileTree) (p : Path) : (makeOrFind p).on t =
    match t.makeFolder p with
    | .ok t' => (.ok (), t')
    | .error e => if t.isFolder p then (.ok (), t) else (.error e, t) := by
  rw [makeOrFind, on_get_bind]
  cases t.makeFolder p with
  | ok t' => rfl
  | error e => cases t.isFolder p <;> rfl

theorem own_on (t : FileTree) (p : Path) :
    Own t p ((makeOrFind p).on t).1 ((makeOrFind p).on t).2 := by
  rw [on_makeOrFind]
  cases new : t.makeFolder p with
  | ok t' => exact .made new
  | error e =>
    cases there : t.isFolder p with
    | true => exact .found new there
    | false => exact .refused new there

theorem Own.on (h : Own t p r t') : (makeOrFind p).on t = (r, t') := by
  rw [on_makeOrFind]
  cases h with
  | made new => rw [new]
  | found old there => simp [old, there]
  | refused none absent => simp [none, absent]

theorem on_makeFoldersWithin_of_ready (filled : p.bytes ≠ [])
    (ready : t.makeFolder p ≠ .error .notFound) :
    (makeFoldersWithin (fuel + 1) p).on t = (makeOrFind p).on t := by
  rw [makeFoldersWithin, if_neg filled, on_get_bind]
  split
  case h_1 missing => exact absurd missing ready
  case h_2 => rw [if_neg (by simp)]

theorem on_makeFoldersWithin_of_missing (filled : p.bytes ≠ [])
    (missing : t.makeFolder p = .error .notFound) :
    (makeFoldersWithin (fuel + 1) p).on t = match p.parent? with
      | none => (.error (.other "failed to create whole tree"), t)
      | some above => (makeFoldersWithin fuel above >>= fun _ => makeOrFind p).on t := by
  rw [makeFoldersWithin, if_neg filled, on_get_bind, missing, if_pos rfl]
  cases p.parent? <;> rfl

theorem made_on (fuel : Nat) (t : FileTree) (p : Path) :
    Made fuel t p ((makeFoldersWithin fuel p).on t).1 ((makeFoldersWithin fuel p).on t).2 := by
  induction fuel generalizing t p with
  | zero => exact .spent
  | succ fuel ih =>
    by_cases none : p.bytes = []
    · rw [makeFoldersWithin, if_pos none]
      exact .empty none
    by_cases missing : t.makeFolder p = .error .notFound
    · rw [on_makeFoldersWithin_of_missing none missing]
      cases above : p.parent? with
      | none => exact .top none missing above
      | some q =>
        have first := ih t q
        dsimp only
        rcases made : (makeFoldersWithin fuel q).on t with ⟨e | ⟨⟩, t'⟩
        · rw [made] at first
          rw [on_bind_error made]
          exact .failed none missing above first
        · rw [made] at first
          rw [on_bind_ok made]
          exact .under none missing above first (own_on t' p)
    · rw [on_makeFoldersWithin_of_ready none missing]
      exact .here none missing (own_on t p)

theorem Made.on (h : Made fuel t p r t') : (makeFoldersWithin fuel p).on t = (r, t') := by
  induction h with
  | spent => rfl
  | empty none =>
    rw [makeFoldersWithin, if_pos none]
    rfl
  | here filled ready own => rw [on_makeFoldersWithin_of_ready filled ready, own.on]
  | top filled missing none => rw [on_makeFoldersWithin_of_missing filled missing, none]
  | failed filled missing above _ ih =>
    rw [on_makeFoldersWithin_of_missing filled missing, above]
    exact on_bind_error ih
  | under filled missing above _ own ih =>
    rw [on_makeFoldersWithin_of_missing filled missing, above]
    exact (on_bind_ok ih).trans own.on

theorem Made.hasMoreFolders (h : Made fuel t p r t') : t'.HasMoreFolders t := by
  have more := makeFoldersWithin_hasMoreFolders (t := t) fuel p
  rwa [h.on] at more

/-! ## What is made -/

/-- A folder that is there is found. -/
theorem made_of_isFolder (fuel : Nat) (there : t.isFolder p = true) :
    Made (fuel + 1) t p (.ok ()) t := by
  have old := makeFolder_of_isFolder there
  obtain ⟨checked, -⟩ := isFolder_iff.mp there
  exact .here (check_eq_ok_iff.mp checked).2.1 (by simp [old]) (.found old there)

theorem Own.isFolder (h : Own t p (.ok ()) t') : t'.isFolder p = true := by
  cases h with
  | made new => exact isFolder_of_makeFolder new
  | found _ there => exact there

/-- What is made lies on the way to where the path leads. -/
def Within (t t' : FileTree) (p : Path) : Prop :=
  ∀ place, t'.node? place = t.node? place ∨
    t.node? place = none ∧ t'.node? place = some .folder ∧ place <+: t.destination p

theorem Own.within (h : Own t p r t') : Within t t' p := by
  intro place
  cases h with
  | found | refused => exact .inl rfl
  | made new =>
    obtain ⟨-, -, missing, rfl⟩ := made_of_makeFolder new
    by_cases here : place = t.destination p
    · subst here
      exact .inr ⟨missing, node?_put_self (ne_nil_of_node? (t := t) (by simp [missing])),
        List.prefix_rfl⟩
    · exact .inl (node?_put_of_ne here)

/-- A folder that cannot be made yet lies in the one that its path names before it. -/
theorem destination_above (whole : t.WellFormed) (direct : t.Direct p) (filled : p.bytes ≠ [])
    (missing : t.makeFolder p = .error .notFound) (above : p.parent? = some q) :
    t.Direct q ∧ t.destination q <+: t.destination p := by
  obtain ⟨absolute, -, -, ⟨name, goes, further⟩ | ⟨none, empty⟩⟩ := Path.parent?_spec above
  · refine ⟨direct.of_prefix absolute (further ▸ List.prefix_append _ _), ?_⟩
    have down : name ≠ [Path.dot, Path.dot] := by
      rintro rfl
      obtain ⟨-, failed | ⟨walked, nothing⟩⟩ := walk_of_missing filled missing
      · exact direct q.steps (further ▸ List.prefix_rfl) (further ▸ failed)
      · -- The way up ends in a folder, since it starts in one.
        rw [further, walk_append] at walked
        cases before : t.walk p q.steps with
        | error e => simp [before, bind, Except.bind] at walked
        | ok place =>
          simp only [before, bind, Except.bind] at walked
          obtain ⟨folder, -, up⟩ := enter_eq_ok_iff.mp walked
          rw [← up, lead_up] at nothing
          exact absurd (whole.folder_dropLast folder) (by simp [nothing])
    rw [destination_eq_steps, destination_eq_steps, further, List.foldl_append, start_congr absolute]
    simp [lead_of_leads goes down]
  · obtain rfl : q = ⟨[]⟩ := congrArg Path.mk empty
    refine ⟨direct.of_prefix absolute List.nil_prefix, ?_⟩
    rw [destination_eq_steps, destination_eq_steps, none, start_congr absolute]
    exact List.prefix_rfl

theorem Within.refl (t : FileTree) (p : Path) : Within t t p := fun _ => .inl rfl

theorem Within.trans (first : Within t t' q) (next : Within t' t'' p)
    (same : t'.current = t.current) (above : t.destination q <+: t.destination p) :
    Within t t'' p := by
  intro place
  rw [Within] at next
  rcases next place with same' | ⟨none, folder, under⟩
  · rw [same']
    exact (first place).imp_right fun ⟨missing, made, on⟩ => ⟨missing, made, on.trans above⟩
  · rw [destination_congr same] at under
    rcases first place with same' | ⟨-, made, -⟩
    · exact .inr ⟨same' ▸ none, folder, under⟩
    · rw [made] at none
      cases none

theorem Made.within (h : Made fuel t p r t') (whole : t.WellFormed) (direct : t.Direct p) :
    Within t t' p := by
  induction h with
  | spent | empty | top => exact Within.refl _ _
  | here _ _ own => exact own.within
  | failed filled missing above first ih =>
    obtain ⟨direct', under⟩ := destination_above whole direct filled missing above
    exact (ih whole direct').trans (Within.refl _ _) first.hasMoreFolders.current under
  | under filled missing above first own ih =>
    obtain ⟨direct', under⟩ := destination_above whole direct filled missing above
    exact (ih whole direct').trans own.within first.hasMoreFolders.current under

/-! ## Making folders again -/

/-- A failure that has made something is one of a folder with a name. -/
theorem Made.filled (h : Made fuel t q (.error e) t') (moved : t' ≠ t) :
    q.bytes ≠ [] ∧ ∃ less, fuel = less + 1 := by
  cases h with
  | spent => exact absurd rfl moved
  | here filled | top filled | failed filled | under filled => exact ⟨filled, _, rfl⟩

/-- The reason for which a folder cannot be made comes out of the ones it lies in. -/
theorem Made.error_eq {reason : IoError} (h : Made fuel t q (.error e) t')
    (failed : t.makeFolder q = .error reason) (other : reason ≠ .notFound)
    (some : ∃ less, fuel = less + 1) : e = reason := by
  obtain ⟨less, rfl⟩ := some
  cases h with
  | here _ _ own =>
    cases own with
    | refused none => exact Except.error.inj (none.symm.trans failed)
  | top _ missing | failed _ missing | under _ missing =>
    exact absurd (Except.error.inj (failed.symm.trans missing)) other

/-- When the folder in which another one lies has failed to be made, and the other one now
fails for another reason than that it is not there, then it fails for the same reason. -/
theorem Made.own_of_failed (first : Made fuel t q (.error e) t')
    (again : Made fuel t' q (.error e) t') (whole : t.WellFormed) (direct : t.Direct q)
    (filled : p.bytes ≠ []) (missing : t.makeFolder p = .error .notFound)
    (above : p.parent? = some q) (ready : t'.makeFolder p ≠ .error .notFound) :
    Own t' p (.error e) t' := by
  have moved : t' ≠ t := by
    rintro rfl
    exact ready missing
  obtain ⟨filled', some⟩ := first.filled moved
  obtain ⟨checked, -⟩ := walk_of_missing filled missing
  obtain ⟨absolute, written, -, ⟨name, -, further⟩ | ⟨-, empty⟩⟩ := Path.parent?_spec above
  case inr => exact absurd empty filled'
  have checked' := check_of_front checked written filled'
  have walks (s : FileTree) :
      s.walk p p.steps = s.walk q q.steps >>= fun place => s.enter place name := by
    rw [further, walk_append, walk_congr absolute]
  cases led : t'.walk q q.steps with
  | error reason =>
    have failed : t'.walk p p.steps = .error reason := by
      rw [walks, led]
      rfl
    have refused := makeFolder_of_walk_error checked failed
    have other : reason ≠ .notFound := fun same => ready (same ▸ refused)
    obtain rfl := again.error_eq (makeFolder_of_walk_error checked' led) other some
    refine .refused refused (Bool.eq_false_iff.mpr fun there => ?_)
    rw [(isFolder_iff.mp there).2.1] at failed
    cases failed
  | ok place =>
    exfalso
    cases there : t'.node? place with
    | none =>
      have failed : t'.walk p p.steps = .error .notFound := by
        rw [walks, led]
        simp [enter, there, bind, Except.bind]
      exact ready (makeFolder_of_walk_error checked failed)
    | some node =>
      cases node with
      | folder =>
        obtain rfl := destination_of_walk led
        obtain ⟨less, rfl⟩ := some
        have found := (made_of_isFolder less (isFolder_iff.mpr ⟨checked', led, there⟩)).on
        rw [again.on] at found
        cases found
      | file content =>
        -- The file was there before, so that the first attempt has failed because of it.
        have old := first.hasMoreFolders.file there
        have led := walk_of_more whole direct first.hasMoreFolders led (by simp [old])
        have failed : t.walk p p.steps = .error .notDirectory := by
          rw [walks, led]
          simp [enter, old, bind, Except.bind]
        rw [makeFolder_of_walk_error checked failed] at missing
        cases missing

/-- Making a folder again changes nothing and comes to the same end. -/
theorem Made.again (h : Made fuel t p r t') (whole : t.WellFormed) (direct : t.Direct p) :
    Made fuel t' p r t' := by
  induction h with
  | spent => exact .spent
  | empty none => exact .empty none
  | here filled ready own =>
    cases own with
    | made new => exact made_of_isFolder _ (isFolder_of_makeFolder new)
    | found old there => exact .here filled ready (.found old there)
    | refused none absent => exact .here filled ready (.refused none absent)
  | top filled missing none => exact .top filled missing none
  | failed filled missing above first ih =>
    have direct' := (destination_above whole direct filled missing above).1
    have again := ih whole direct'
    rename_i fuel t t' p q e
    by_cases still : t'.makeFolder p = .error .notFound
    · exact .failed filled still above again
    · exact .here filled still (first.own_of_failed again whole direct' filled missing above still)
  | under filled missing above first own ih =>
    have direct' := (destination_above whole direct filled missing above).1
    have again := ih whole direct'
    cases own with
    | made new => exact made_of_isFolder _ (isFolder_of_makeFolder new)
    | found old there => exact made_of_isFolder _ there
    | @refused e none absent =>
      by_cases still : e = .notFound
      · exact .under filled (still ▸ none) above again (.refused none absent)
      · exact .here filled (by simp [none, still]) (.refused none absent)

theorem made_of_makeFolders (h : (makeFolders p).on t = (r, t')) :
    Made (p.bytes.length + 1) t p r t' := by
  have made := made_on (p.bytes.length + 1) t p
  rw [makeFolders] at h
  rwa [h] at made

/-- A folder can be made where the one it lies in is there. -/
theorem Own.of_makeable (own : Own t p r t') (h : t.Makeable p) (filled : p.bytes ≠ [])
    (walked : t.walk p p.steps = .ok (t.destination p)) : r = .ok () := by
  cases own with
  | made | found => rfl
  | refused none absent =>
    exfalso
    have checked := h.named filled
    cases there : t.node? (t.destination p) with
    | some node =>
      cases node with
      | folder => rw [isFolder_iff.mpr ⟨checked, walked, there⟩] at absent; cases absent
      | file content =>
        rw [destination_eq_steps] at there
        exact h.clear p.steps List.prefix_rfl content there
    | none =>
      have steps : p.steps ≠ [] := fun no => by simp [(h.of_no_steps no).2] at there
      have goes := h.ends.resolve_left steps
      rw [makeFolder_eq checked fun bare => steps (steps_of_trimmed bare), walked] at none
      simp [goes, there, bind, Except.bind] at none

/-- What can be made is there afterwards. -/
theorem Made.of_makeable (made : Made fuel t p r t') (enough : p.bytes.length < fuel)
    (h : t.Makeable p) : r = .ok () ∧ t'.walk p p.steps = .ok (t'.destination p) ∧
      t'.node? (t'.destination p) = some .folder := by
  induction made with
  | spent => omega
  | empty none => exact ⟨rfl, h.of_no_steps (by rw [Path.steps, none]; rfl)⟩
  | here filled ready own =>
    have walked := h.walk.resolve_right fun missing =>
      ready (makeFolder_of_walk_error (h.named filled) missing)
    obtain rfl := own.of_makeable h filled walked
    exact ⟨rfl, (isFolder_iff.mp own.isFolder).2⟩
  | top filled missing none =>
    obtain ⟨walked, there⟩ := h.of_no_steps (Path.steps_of_parent?_eq_none none)
    rcases (walk_of_missing filled missing).2 with failed | ⟨-, absent⟩
    · rw [walked] at failed
      cases failed
    · rw [there] at absent
      cases absent
  | failed _ _ above _ ih =>
    have less := Path.length_lt_of_parent? above
    cases (ih (by omega) (h.above above)).1
  | under filled _ above first own ih =>
    have less := Path.length_lt_of_parent? above
    obtain ⟨-, walked, there⟩ := ih (by omega) (h.above above)
    have h := h.more first.hasMoreFolders
    obtain ⟨absolute, -, -, ⟨name, -, further⟩ | ⟨none, -⟩⟩ := Path.parent?_spec above
    · have short := h.short name (by simp [further])
      have entered := enter_eq_ok_iff.mpr ⟨there, short, rfl⟩
      have led := h.walk.resolve_right fun missing => by
        rw [further, walk_append, ← walk_congr absolute, walked] at missing
        cases entered.symm.trans missing
      obtain rfl := own.of_makeable h filled led
      exact ⟨rfl, (isFolder_iff.mp own.isFolder).2⟩
    · obtain rfl := own.of_makeable h filled (h.of_no_steps none).1
      exact ⟨rfl, (isFolder_iff.mp own.isFolder).2⟩

end FileWork

end LanguageClient
