import LanguageClient.Proofs.Files.Folders
import LanguageClient.Settings.Load

/-!
# What loading settings reads and writes

Loading reads two files at most, the user's and the nearest one of the project, and what it
gives depends on nothing else.  It writes nothing but the user's file and the folders that
this lies in, where they are not there (`Created`).  So loading again gives the same.
-/

set_option autoImplicit false

namespace LanguageClient.Settings

open FileTree FileWork

variable {t t' : FileTree} {folder : Path} {r : Except IoError Unit}

/-! ## The files that are read -/

/-- Where the settings of a project lie in a folder. -/
def placeIn (folder : Path) : Path := (folder.child projectFolder).child fileName

/-- Which file has the settings of a project: that in the nearest folder that has one, going
up from a folder, if there is one. -/
inductive Nearest (t : FileTree) : Option Path → Option Path → Prop
  | nowhere : Nearest t none none
  | here {folder : Path} (there : t.isFile (placeIn folder) = true) :
      Nearest t (some folder) (some (placeIn folder))
  | above {folder : Path} {found : Option Path} (absent : t.isFile (placeIn folder) = false)
      (further : Nearest t folder.parent? found) : Nearest t (some folder) found

theorem projectFile?_eq (t : FileTree) (start : Path) : projectFile? t start =
    if t.isFile (placeIn start) then some (placeIn start)
    else start.parent?.bind (projectFile? t) := by
  rw [projectFile?, Path.ancestors_eq, List.map_cons, List.find?_cons]
  cases there : t.isFile (placeIn start) with
  | true =>
    rw [placeIn] at there
    simp [placeIn, there]
  | false =>
    rw [placeIn] at there
    cases start.parent? <;> simp [there, projectFile?]

theorem nearest_projectFile? (t : FileTree) (project : Option Path) :
    Nearest t project (project.bind (projectFile? t)) := by
  cases project with
  | none => exact .nowhere
  | some start =>
    rw [Option.bind_some]
    induction length : start.bytes.length using Nat.strongRecOn generalizing start with
    | ind _ ih =>
      rw [projectFile?_eq]
      cases there : t.isFile (placeIn start) with
      | true => exact .here there
      | false =>
        refine .above there ?_
        cases above : start.parent? with
        | none => exact .nowhere
        | some next => exact ih _ (length ▸ Path.length_lt_of_parent? above) next rfl

/-- Whether a file is read and has nothing but blank lines and comments. -/
def isBlank (t : FileTree) (file : Path) : Bool :=
  match t.readText file with
  | .ok text => !hasContent text
  | .error _ => false

/-- The settings of some files, each laid over those before it and the first over the
defaults. -/
def layered (t : FileTree) (files : List Path) : Except SettingsError Settings :=
  files.foldlM (fun base file => do mergeFile base file (← readFile t file)) .default

@[simp] theorem layered_nil (t : FileTree) : layered t [] = .ok .default := rfl

theorem layered_singleton (t : FileTree) (file : Path) :
    layered t [file] = readFile t file >>= mergeFile .default file := by
  simp [layered]

theorem loadUser_eq (t : FileTree) (folder : Path) : loadUser t folder =
    layered t (if isBlank t (folder.child fileName) then [] else [folder.child fileName]) := by
  rw [loadUser, isBlank]
  cases read : t.readText (folder.child fileName) with
  | error e =>
    rw [if_neg (by simp), layered_singleton, readFile, read]
    rfl
  | ok text =>
    have given : readFile t (folder.child fileName) = .ok text := by
      rw [readFile, read]
      rfl
    by_cases filled : hasContent text = true
    · rw [if_neg (by simp [filled]), layered_singleton, given]
      exact if_pos filled
    · rw [if_pos (by simp [filled]), layered_nil, given]
      exact if_neg filled

theorem loadProject_eq (t : FileTree) (project : Option Path) (base : Settings) :
    loadProject t project base = (project.bind (projectFile? t)).toList.foldlM
      (fun base file => do mergeFile base file (← readFile t file)) base := by
  rw [loadProject]
  cases project.bind (projectFile? t) with
  | none => rfl
  | some file => simp

/-- The settings of the user and of the project come from the files that are read. -/
theorem layered_of_files (t : FileTree) (folder : Path) (project : Option Path) :
    (loadUser t folder).bind (loadProject t project) =
      layered t ((if isBlank t (folder.child fileName) then [] else [folder.child fileName]) ++
        (project.bind (projectFile? t)).toList) := by
  rw [layered, List.foldlM_append, ← layered, ← loadUser_eq]
  exact congrArg _ (funext (loadProject_eq t project))

/-! ## The user's file -/

theorem fileName_whole : Path.separator ∉ Utf8.encode fileName := by decide

theorem fileName_leads : Path.leads (Utf8.encode fileName) = true := by decide

theorem fileName_down : Utf8.encode fileName ≠ [Path.dot, Path.dot] := by decide

/-- The user's file is in its folder. -/
theorem destination_file (t : FileTree) (folder : Path) :
    t.destination (folder.child fileName) =
      t.destination folder ++ [Utf8.encode fileName] :=
  destination_child t folder fileName_whole fileName_leads fileName_down

/-- How the file of a user who has none is made. -/
inductive Created (t : FileTree) (folder : Path) : Except IoError Unit → FileTree → Prop
  | there (old : t.exists (folder.child fileName) = true) : Created t folder (.ok ()) t
  | unmade {t' : FileTree} {e : IoError} (none : t.exists (folder.child fileName) = false)
      (folders : Made (folder.bytes.length + 1) t folder (.error e) t') :
      Created t folder (.error e) t'
  | unwritten {t' : FileTree} {e : IoError} (none : t.exists (folder.child fileName) = false)
      (folders : Made (folder.bytes.length + 1) t folder (.ok ()) t')
      (failed : t'.write (folder.child fileName) template.toUTF8 = .error e) :
      Created t folder (.error e) t'
  | written {t' t'' : FileTree} (none : t.exists (folder.child fileName) = false)
      (folders : Made (folder.bytes.length + 1) t folder (.ok ()) t')
      (new : t'.write (folder.child fileName) template.toUTF8 = .ok t'') :
      Created t folder (.ok ()) t''

theorem on_createMissing (t : FileTree) (folder : Path) : (createMissing folder).on t =
    if t.exists (folder.child fileName) then (.ok (), t)
    else (makeFolders folder >>= fun _ =>
      change (·.write (folder.child fileName) template.toUTF8)).on t := by
  rw [createMissing, on_get_bind]
  cases t.exists (folder.child fileName) <;> rfl

theorem created_of_createMissing (h : (createMissing folder).on t = (r, t')) :
    Created t folder r t' := by
  rw [on_createMissing] at h
  cases there : t.exists (folder.child fileName) with
  | true =>
    rw [if_pos there] at h
    cases h
    exact .there there
  | false =>
    rw [if_neg (by simp [there])] at h
    rcases made : (makeFolders folder).on t with ⟨e | ⟨⟩, t₁⟩
    · rw [on_bind_error made] at h
      cases h
      exact .unmade there (made_of_makeFolders made)
    · rw [on_bind_ok made, on_change] at h
      cases written : t₁.write (folder.child fileName) template.toUTF8 with
      | error e =>
        rw [written] at h
        cases h
        exact .unwritten there (made_of_makeFolders made) written
      | ok t₂ =>
        rw [written] at h
        cases h
        exact .written there (made_of_makeFolders made) written

theorem Created.on (h : Created t folder r t') : (createMissing folder).on t = (r, t') := by
  rw [on_createMissing]
  cases h with
  | there old => rw [if_pos old]
  | unmade none folders =>
    rw [if_neg (by simp [none])]
    exact on_bind_error folders.on
  | unwritten none folders failed =>
    rw [if_neg (by simp [none])]
    exact (on_bind_ok folders.on).trans (by rw [on_change, failed])
  | written none folders new =>
    rw [if_neg (by simp [none])]
    exact (on_bind_ok folders.on).trans (by rw [on_change, new])

/-- Folders that are made on the way to where the user's file is do not reach its place. -/
theorem node?_file_of_within (within : Within t t' folder) :
    t'.node? (t.destination (folder.child fileName)) =
      t.node? (t.destination (folder.child fileName)) := by
  rcases within (t.destination (folder.child fileName)) with same | ⟨-, -, under⟩
  · exact same
  · have longer := under.length_le
    rw [destination_file, List.length_append, List.length_singleton] at longer
    omega

/-- The user's file does not come to be by making folders. -/
theorem not_exists_of_made (whole : t.WellFormed) (direct : t.Direct folder)
    (none : t.exists (folder.child fileName) = false) {fuel : Nat}
    (folders : Made fuel t folder r t') : t'.exists (folder.child fileName) = false := by
  refine Bool.eq_false_iff.mpr fun there => ?_
  have kept := node?_file_of_within (folders.within whole direct)
  have direct' := direct.child fileName_whole fileName_leads fileName_down
  have before := exists_of_more whole direct' folders.hasMoreFolders kept there
  rw [none] at before
  cases before

/-- The user's file is there afterwards if it could be made. -/
theorem Created.exists_iff (h : Created t folder r t') (whole : t.WellFormed)
    (direct : t.Direct folder) :
    t'.exists (folder.child fileName) = true ↔ r = .ok () := by
  cases h with
  | there old => simp [old]
  | unmade none folders | unwritten none folders =>
    simp [not_exists_of_made whole direct none folders]
  | written _ _ new => simp [exists_of_change new]

/-- Making the user's file again changes nothing and comes to the same end. -/
theorem Created.again (h : Created t folder r t') (whole : t.WellFormed)
    (direct : t.Direct folder) : Created t' folder r t' := by
  cases h with
  | there old => exact .there old
  | unmade none folders =>
    exact .unmade (not_exists_of_made whole direct none folders) (folders.again whole direct)
  | unwritten none folders failed =>
    exact .unwritten (not_exists_of_made whole direct none folders)
      (folders.again whole direct) failed
  | written _ _ new => exact .there (exists_of_change new)

/-- A tree to which nothing has come but what a user without settings was missing: folders on
the way to the user's file, and the file itself, as it is for a new user. -/
structure Supplied (t' t : FileTree) (folder : Path) : Prop where
  current : t'.current = t.current
  node : ∀ place, t'.node? place = t.node? place ∨ t.node? place = none ∧
    (t'.node? place = some .folder ∧ place <+: t.destination folder ∨
      t'.node? place = some (.file template.toUTF8) ∧
        place = t.destination (folder.child fileName))

theorem supplied_of_made (whole : t.WellFormed) (direct : t.Direct folder) {fuel : Nat}
    (folders : Made fuel t folder r t') : Supplied t' t folder := by
  refine ⟨folders.hasMoreFolders.current, fun place => ?_⟩
  exact (folders.within whole direct place).imp_right fun ⟨missing, made, under⟩ =>
    ⟨missing, .inl ⟨made, under⟩⟩

theorem Created.supplied (h : Created t folder r t') (whole : t.WellFormed)
    (direct : t.Direct folder) : Supplied t' t folder := by
  cases h with
  | there => exact ⟨rfl, fun _ => .inl rfl⟩
  | unmade _ folders | unwritten _ folders => exact supplied_of_made whole direct folders
  | written none folders new =>
    have first := supplied_of_made whole direct folders
    have kept := node?_file_of_within (folders.within whole direct)
    obtain ⟨-, resolved, free, rfl⟩ := change_eq_ok_iff.mp new
    rw [destination_congr first.current] at resolved free ⊢
    refine ⟨first.current, fun place => ?_⟩
    by_cases here : place = t.destination (folder.child fileName)
    · subst here
      refine .inr ⟨?_, .inr ⟨node?_put_self (ne_nil_of_node? free), rfl⟩⟩
      -- A file there would have been found, so that none would have been written.
      cases old : t.node? (t.destination (folder.child fileName)) with
      | none => rfl
      | some node =>
        have absent := not_exists_of_made whole direct none folders
        rw [exists_of_resolve resolved (kept.trans old)] at absent
        cases absent
    · rw [node?_put_of_ne here]
      exact first.node place

/-- Where a folder is there, the user's file can be written in it. -/
theorem resolve_file (named : FileTree.check (folder.child fileName) = .ok ())
    (walked : t.walk folder folder.steps = .ok (t.destination folder))
    (there : t.node? (t.destination folder) = some .folder) :
    t.resolve (folder.child fileName) = .ok (t.destination (folder.child fileName)) := by
  have led : t.walk (folder.child fileName) (folder.child fileName).steps =
      .ok (t.destination (folder.child fileName)) := by
    rw [Path.steps_child folder fileName_whole fileName_leads, walk_append,
      walk_congr (Path.parts_child folder fileName_whole).1, walked, destination_file]
    exact enter_eq_ok_iff.mpr ⟨there, by decide, lead_of_leads fileName_leads fileName_down⟩
  rw [resolve, named, walk_parts, led, Path.lastPart_child folder fileName_whole]
  rfl

/-- The user's file is made if its folder can be. -/
theorem Created.of_makeable (h : Created t folder r t') (whole : t.WellFormed)
    (direct : t.Direct folder) (none : t.exists (folder.child fileName) = false)
    (named : FileTree.check (folder.child fileName) = .ok ()) (free : t.Makeable folder) :
    t'.node? (t.destination (folder.child fileName)) = some (.file template.toUTF8) := by
  have made {r : Except IoError Unit} {t₁ : FileTree}
      (folders : Made (folder.bytes.length + 1) t folder r t₁) :
      r = .ok () ∧ ∃ t₂, t₁.write (folder.child fileName) template.toUTF8 = .ok t₂ := by
    obtain ⟨rfl, walked, there⟩ := folders.of_makeable (Nat.lt_succ_self _) free
    have resolved := resolve_file named walked there
    refine ⟨rfl, _, change_eq_ok_iff.mpr ⟨?_, resolved, fun folder => ?_, rfl⟩⟩
    · rw [Path.lastPart_child _ fileName_whole]
      decide
    · have absent := not_exists_of_made whole direct none folders
      rw [exists_of_resolve resolved folder] at absent
      cases absent
  cases h with
  | there old => rw [none] at old; cases old
  | unmade _ folders => cases (made folders).1
  | unwritten _ folders failed =>
    obtain ⟨-, t₂, new⟩ := made folders
    rw [failed] at new
    cases new
  | written _ folders new =>
    obtain ⟨-, -, free, rfl⟩ := change_eq_ok_iff.mp new
    rw [destination_congr folders.hasMoreFolders.current] at free ⊢
    exact node?_put_self (ne_nil_of_node? free)

/-! ## Loading -/

theorem load_of_created (h : Created t folder (.ok ()) t') (project : Option Path) :
    (load t folder project).files = t' ∧ (load t folder project).settings =
      (layered t' ((if isBlank t' (folder.child fileName) then [] else [folder.child fileName]) ++
        (project.bind (projectFile? t')).toList)).bind fun s => s.check.1 := by
  rw [load, h.on, ← layered_of_files]
  dsimp only
  cases (loadUser t' folder).bind (loadProject t' project) with
  | error e => exact ⟨rfl, rfl⟩
  | ok s => exact ⟨rfl, rfl⟩

theorem load_of_refused {e : IoError} (h : Created t folder (.error e) t')
    (project : Option Path) : load t folder project =
      ⟨.error (.createDefault ((folder.child fileName).display ++ ": " ++ e.message)), [], t'⟩ := by
  rw [load, h.on]

theorem files_load (h : Created t folder r t') (project : Option Path) :
    (load t folder project).files = t' := by
  cases r with
  | ok => exact (load_of_created h project).1
  | error e => exact congrArg Loaded.files (load_of_refused h project)

/-- Where the user's file is made again with the same end, loading gives the same. -/
theorem settings_load_again (h : Created t folder r t') (again : Created t' folder r t')
    (project : Option Path) :
    (load t' folder project).settings = (load t folder project).settings := by
  cases r with
  | ok => rw [(load_of_created h project).2, (load_of_created again project).2]
  | error e => rw [load_of_refused h project, load_of_refused again project]

/-- A user without a settings file gets one, with the folders that it lies in, and loading
changes nothing else.  The settings are those of the files, each over those before it: the
user's, unless it has only blank lines and comments, and the nearest one of the project.
Loading again changes nothing and gives the same.  This is so of all paths that never go up
out of a folder that is not there. -/
theorem load_creates_only_missing (whole : t.WellFormed) (direct : t.Direct folder)
    (project : Option Path) :
    let file := folder.child fileName
    let first := load t folder project
    let second := load first.files folder project
    (t.exists file = true → first.files = t) ∧
    (t.exists file = false → Supplied first.files t folder ∧
      (FileTree.check file = .ok () → t.Makeable folder →
        first.files.node? (t.destination file) = some (.file template.toUTF8))) ∧
    (first.files.exists file = true → ∃ found, Nearest first.files project found ∧
      first.settings = (layered first.files
        ((if isBlank first.files file then [] else [file]) ++ found.toList)).bind
          fun s => s.check.1) ∧
    (first.files.exists file = false → ∃ e : IoError,
      first.settings = .error (.createDefault (file.display ++ ": " ++ e.message))) ∧
    second.settings = first.settings ∧ second.files = first.files := by
  intro file first second
  rcases made : (createMissing folder).on t with ⟨r, t'⟩
  have created := created_of_createMissing made
  have again := created.again whole direct
  have written := created.exists_iff whole direct
  have files : first.files = t' := files_load created project
  refine ⟨fun there => ?_, fun absent => ?_, fun there => ?_, fun absent => ?_, ?_⟩
  · rw [files]
    cases created with
    | there => rfl
    | unmade none | unwritten none | written none =>
      rw [none] at there
      cases there
  · rw [files]
    exact ⟨created.supplied whole direct, created.of_makeable whole direct absent⟩
  · rw [files] at there ⊢
    obtain rfl := written.mp there
    exact ⟨_, nearest_projectFile? t' project, (load_of_created created project).2⟩
  · rw [files] at absent
    cases r with
    | ok => rw [written.mpr rfl] at absent; cases absent
    | error e => exact ⟨e, congrArg Loaded.settings (load_of_refused created project)⟩
  · show (load first.files folder project).settings = (load t folder project).settings ∧
      (load first.files folder project).files = first.files
    rw [files]
    exact ⟨settings_load_again created again project, files_load again project⟩

/-- The file of a user can be in a project. -/
theorem load_creates_only_missing_in_project :
    let t : FileTree := ⟨[Utf8.encode "work"], [([Utf8.encode "work"], .folder)]⟩
    let folder : Path := .ofString "./.vicode"
    let file := folder.child fileName
    let first := load t folder (some (.ofString "src"))
    let second := load first.files folder (some (.ofString "src"))
    t.WellFormed ∧ t.Direct folder ∧ t.exists file = false ∧
      FileTree.check file = .ok () ∧ t.Makeable folder ∧ Supplied first.files t folder ∧
      first.files.node? (t.destination file) = some (.file template.toUTF8) ∧
      second.settings = first.settings ∧ second.files = first.files := by
  intro t folder file
  have whole : t.WellFormed := wellFormed_of_nodes (by decide)
  have direct : t.Direct folder := direct_of_not_mem (by decide)
  have missing : t.exists file = false := by decide
  have named : FileTree.check file = .ok () := by decide
  have steps : folder.steps = [] ++ [Utf8.encode projectFolder] := by decide
  have free : t.Makeable folder := by
    refine ⟨fun _ => by decide, .inr (by decide), by decide, by decide, ?_⟩
    intro front within content
    rw [steps] at within
    rcases List.prefix_concat_iff.mp within with rfl | none
    · have there : t.node? (([] ++ [Utf8.encode projectFolder]).foldl lead (t.start folder)) =
          none := by decide
      rw [there]
      simp
    · obtain rfl := List.prefix_nil.mp none
      have there : t.node? (([] : Place).foldl lead (t.start folder)) = some .folder := by decide
      rw [there]
      simp
  have loaded := load_creates_only_missing whole direct (some (.ofString "src"))
  obtain ⟨supplied, written⟩ := loaded.2.1 missing
  exact ⟨whole, direct, missing, named, free, supplied, written named free, loaded.2.2.2.2⟩

/-- A path that goes up out of a missing folder leads nowhere until that folder is made, and
then to a file that was there before, which loses its content. -/
theorem load_overwrites :
    let old := "[lsp]\nrequest_timeout_secs = 20\n"
    let place : Place := [Utf8.encode "y", Utf8.encode fileName]
    let t : FileTree := ⟨[], [([Utf8.encode "y"], .folder), (place, .file old.toUTF8)]⟩
    let first := load t (.ofString "x/../y") none
    t.WellFormed ∧ t.node? place = some (.file old.toUTF8) ∧
      first.files.node? place = some (.file template.toUTF8) ∧
        old.toUTF8 ≠ template.toUTF8 := by
  intro old place t
  have whole : t.WellFormed := wellFormed_of_nodes (by decide)
  have before : t.node? place = some (.file old.toUTF8) := rfl
  have run : (createMissing (.ofString "x/../y")).on t =
      (.ok (), (t.put [Utf8.encode "x"] .folder).put place (.file template.toUTF8)) := by rfl
  have files := (load_of_created (created_of_createMissing run) none).1
  have after : (load t (.ofString "x/../y") none).files.node? place =
      some (.file template.toUTF8) := by
    rw [files]
    exact node?_put_self (by simp [place])
  have other : old ≠ template := by decide
  exact ⟨whole, before, after, fun same => other (String.toByteArray_inj.mp same)⟩

end LanguageClient.Settings
