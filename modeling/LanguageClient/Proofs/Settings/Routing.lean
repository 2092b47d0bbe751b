import LanguageClient.Proofs.Settings.Layering
import LanguageClient.Settings.Load
import LanguageClient.Workspace.Launching
import Mathlib.Data.List.TakeWhile

/-!
# Which server a file belongs to

What is wrong with settings, said without going over them: who has an extension first is a
question about the servers below, not about what was met on the way.  Settings with nothing
wrong give every extension to one language at most, and that language to every path with it.
-/

set_option autoImplicit false

namespace LanguageClient

/-! ## Extensions without dots -/

theorem bareExtension_isEmpty_iff {extension : String} :
    (bareExtension extension).isEmpty = true ↔ ∀ c ∈ extension.toList, c = '.' := by
  rw [bareExtension, String.isEmpty_iff, String.ofList_eq_empty_iff, List.dropWhile_eq_nil_iff]
  simp

namespace ServerEntry

/-- Whether the server has an extension, given without dots in front. -/
def claims (e : ServerEntry) (bare : String) : Bool :=
  e.extensions.any (bareExtension · == bare)

theorem handles_eq_claims (e : ServerEntry) (extension : String) :
    e.handles extension = e.claims (bareExtension extension) := rfl

theorem claims_iff {e : ServerEntry} {bare : String} :
    e.claims bare = true ↔ ∃ extension ∈ e.extensions, bareExtension extension = bare := by
  simp [claims]

end ServerEntry

namespace Settings

variable {earlier rest servers : Entries ServerEntry} {language bare owner : String}
  {e : ServerEntry}

/-! ## The first who has an extension -/

/-- The first language of a list that has an extension. -/
def claimant? (servers : Entries ServerEntry) (bare : String) : Option String :=
  (List.find? (·.2.claims bare) servers).map Prod.fst

/-- The first language below another that has an extension. -/
def ownerBelow? (servers : Entries ServerEntry) (language bare : String) : Option String :=
  claimant? (servers.filter (·.1 < language)) bare

theorem claimant?_append_singleton :
    claimant? (earlier ++ [(language, e)]) bare =
      (claimant? earlier bare).or (if e.claims bare then some language else none) := by
  rw [claimant?, claimant?, List.find?_append, Option.map_or]
  by_cases has : e.claims bare = true
  · simp [has]
  · simp [has]

theorem mem_keys_of_claimant? (first : claimant? servers bare = some owner) :
    owner ∈ servers.keys := by
  obtain ⟨entry, found, rfl⟩ := Option.map_eq_some_iff.mp first
  exact List.mem_map_of_mem (List.mem_of_find?_eq_some found)

theorem claimant?_eq_none_iff :
    claimant? servers bare = none ↔ ∀ entry ∈ servers, entry.2.claims bare = false := by
  simp [claimant?]

/-- In order, the first who has an extension is the smallest. -/
theorem claimant?_eq_some_iff (order : servers.Increasing) :
    claimant? servers bare = some owner ↔
      (∃ e, (owner, e) ∈ servers ∧ e.claims bare = true) ∧
        ∀ other e, (other, e) ∈ servers → e.claims bare = true → owner ≤ other := by
  induction servers with
  | nil => simp [claimant?]
  | cons entry servers ih =>
    obtain ⟨name, e⟩ := entry
    obtain ⟨above, later⟩ := List.pairwise_cons.mp order
    have below : ∀ other f, (other, f) ∈ servers → name < other := fun other f held =>
      above other (List.mem_map_of_mem held)
    by_cases has : e.claims bare = true
    · have first : claimant? ((name, e) :: servers) bare = some name := by simp [claimant?, has]
      rw [first, Option.some.injEq]
      constructor
      · rintro rfl
        refine ⟨⟨e, List.mem_cons_self, has⟩, fun other f held _ => ?_⟩
        rcases List.mem_cons.mp held with now | held
        · exact (Prod.mk.inj now).1 ▸ String.le_refl name
        · exact Std.le_of_lt (below other f held)
      · rintro ⟨⟨f, held, -⟩, least⟩
        rcases List.mem_cons.mp held with now | held
        · exact (Prod.mk.inj now).1.symm
        · have more : owner ≤ name := least name e List.mem_cons_self has
          exact absurd (below owner f held) (String.not_lt.mpr more)
    · have next : claimant? ((name, e) :: servers) bare = claimant? servers bare := by
        simp [claimant?, has]
      have held : ∀ other f, f.claims bare = true →
          ((other, f) ∈ (name, e) :: servers ↔ (other, f) ∈ servers) := by
        intro other f does
        rw [List.mem_cons, or_iff_right]
        intro same
        rw [(Prod.mk.inj same).2] at does
        exact has does
      rw [next, ih later]
      constructor
      · rintro ⟨⟨f, there, does⟩, least⟩
        exact ⟨⟨f, (held owner f does).mpr there, does⟩, fun other g there does =>
          least other g ((held other g does).mp there) does⟩
      · rintro ⟨⟨f, there, does⟩, least⟩
        exact ⟨⟨f, (held owner f does).mp there, does⟩, fun other g there does =>
          least other g ((held other g does).mpr there) does⟩

/-- The owner of an extension below a language is the smallest language that has it. -/
theorem ownerBelow?_eq_some_iff (order : servers.Increasing) :
    ownerBelow? servers language bare = some owner ↔
      (owner < language ∧ ∃ e, (owner, e) ∈ servers ∧ e.claims bare = true) ∧
        ∀ other e, other < language → (other, e) ∈ servers → e.claims bare = true →
          owner ≤ other := by
  have kept : Entries.Increasing (servers.filter (·.1 < language)) :=
    List.Pairwise.sublist (List.Sublist.map _ List.filter_sublist) order
  rw [ownerBelow?, claimant?_eq_some_iff kept]
  simp only [List.mem_filter, decide_eq_true_eq]
  constructor
  · rintro ⟨⟨e, ⟨held, less⟩, has⟩, least⟩
    exact ⟨⟨less, e, held, has⟩, fun other f below there does => least other f ⟨there, below⟩ does⟩
  · rintro ⟨⟨less, e, held, has⟩, least⟩
    exact ⟨⟨e, ⟨held, less⟩, has⟩, fun other f there does => least other f there.2 there.1 does⟩

theorem filter_lt_of_split (order : Entries.Increasing (earlier ++ (language, e) :: rest)) :
    (earlier ++ (language, e) :: rest).filter (·.1 < language) = earlier := by
  have split : (earlier.keys ++ language :: rest.keys).Pairwise (· < ·) := by
    simpa [Entries.Increasing, Entries.keys] using order
  obtain ⟨-, after, across⟩ := List.pairwise_append.mp split
  obtain ⟨above, -⟩ := List.pairwise_cons.mp after
  have before : earlier.filter (·.1 < language) = earlier := by
    apply List.filter_eq_self.mpr
    intro entry held
    have less : entry.1 < language :=
      across entry.1 (List.mem_map_of_mem held) language List.mem_cons_self
    simp [less]
  have beyond : rest.filter (·.1 < language) = [] := by
    apply List.filter_eq_nil_iff.mpr
    intro entry held
    have more : language < entry.1 := above entry.1 (List.mem_map_of_mem held)
    simp [String.lt_asymm more]
  rw [List.filter_append, List.filter_cons, before, beyond]
  simp

/-! ## Violations -/

/-- What is wrong with an extension of a language, when the owners below are known. -/
def extensionFault? (below : String → Option String) (language extension : String) :
    Option Violation :=
  if (bareExtension extension).isEmpty then some (.emptyExtension language)
  else (below (bareExtension extension)).map
    (.sharedExtension language (bareExtension extension))

/-- What is wrong with the server of a language: its command, then each of its extensions. -/
def serverFaults (below : String → Option String) (language : String) (e : ServerEntry) :
    List Violation :=
  (if isBlankCommand e.command then [.blankCommand language] else []) ++
    e.extensions.filterMap (extensionFault? below language)

/-- What the owners are after some extensions of a language: those below come first. -/
def Owners.Agree (owners : Owners) (below : String → Option String) (language : String)
    (past : List String) : Prop :=
  ∀ bare, bare.isEmpty = false → owners.find? bare =
    (below bare).or (if past.any (bareExtension · == bare) then some language else none)

variable {below : String → Option String} {owners : Owners} {past : List String}

/-- An extension that has an owner leaves the owners as they are. -/
theorem Owners.Agree.met (agree : owners.Agree below language past) {extension : String}
    (owned : (bareExtension extension).isEmpty = false → owners.find? (bareExtension extension) ≠ none) :
    owners.Agree below language (past ++ [extension]) := by
  intro bare named
  rw [agree bare named]
  by_cases same : bareExtension extension = bare
  · subst same
    have known := owned named
    rw [agree _ named] at known
    cases first : below (bareExtension extension) with
    | some owner => rfl
    | none =>
      rw [first, Option.none_or] at known
      have before : past.any (bareExtension · == bareExtension extension) = true := by
        by_contra not
        exact known (if_neg not)
      simp [before]
  · simp [List.any_append, same]

/-- An extension without an owner becomes one of the language. -/
theorem Owners.Agree.put (agree : owners.Agree below language past) {extension : String}
    (free : owners.find? (bareExtension extension) = none) :
    Owners.Agree (owners.put (bareExtension extension) language) below language
      (past ++ [extension]) := by
  intro bare named
  by_cases same : bareExtension extension = bare
  · subst same
    have none : below (bareExtension extension) = none := by
      have known := agree _ named
      rw [free] at known
      exact (Option.or_eq_none_iff.mp known.symm).1
    rw [Entries.find?_put_same, none]
    simp
  · rw [Entries.find?_put_ne (Ne.symm same), agree bare named]
    simp [List.any_append, same]

/-- Going over the extensions of a language finds what is wrong with each of them. -/
theorem extensionViolations_eq (extensions : List String)
    (other : ∀ bare, below bare ≠ some language) (agree : owners.Agree below language past) :
    (extensionViolations language owners extensions).1 =
        extensions.filterMap (extensionFault? below language) ∧
      (extensionViolations language owners extensions).2.Agree below language
        (past ++ extensions) := by
  induction extensions generalizing owners past with
  | nil => exact ⟨rfl, by simpa [extensionViolations] using agree⟩
  | cons extension extensions ih =>
    have next : past ++ extension :: extensions = past ++ [extension] ++ extensions := by simp
    rw [next]
    by_cases empty : (bareExtension extension).isEmpty = true
    · have fault : extensionFault? below language extension = some (.emptyExtension language) :=
        if_pos empty
      obtain ⟨found, after⟩ := ih (agree.met fun named => absurd (empty.symm.trans named) (by simp))
      rw [List.filterMap_cons_some fault, ← found]
      simp only [extensionViolations, empty, if_true, true_and]
      exact after
    · have named : (bareExtension extension).isEmpty = false := Bool.eq_false_iff.mpr empty
      have fault : extensionFault? below language extension =
          (below (bareExtension extension)).map
            (.sharedExtension language (bareExtension extension)) := if_neg empty
      cases owned : owners.find? (bareExtension extension) with
      | none =>
        have free : below (bareExtension extension) = none := by
          have known := agree _ named
          rw [owned] at known
          exact (Option.or_eq_none_iff.mp known.symm).1
        obtain ⟨found, after⟩ := ih (agree.put owned)
        rw [List.filterMap_cons_none (by rw [fault, free]; rfl), ← found]
        simp only [extensionViolations, named, owned, Bool.false_eq_true, if_false, true_and]
        exact after
      | some owner =>
        obtain ⟨found, after⟩ := ih (agree.met fun _ none => by cases owned.symm.trans none)
        have known := agree _ named
        rw [owned] at known
        simp only [extensionViolations, named, owned, Bool.false_eq_true, if_false]
        refine ⟨?_, after⟩
        cases first : below (bareExtension extension) with
        | some smaller =>
          rw [first, Option.some_or] at known
          obtain rfl := Option.some.inj known
          have different : owner ≠ language := fun same => other _ (same ▸ first)
          rw [List.filterMap_cons_some (by rw [fault, first]; rfl), ← found]
          simp [different]
        | none =>
          rw [first, Option.none_or] at known
          have own : owner = language := by
            split at known
            · exact Option.some.inj known
            · cases known
          rw [List.filterMap_cons_none (by rw [fault, first]; rfl), ← found]
          simp [own]

/-- Going over the servers finds what is wrong with each of them. -/
theorem serverViolations_eq (order : Entries.Increasing (earlier ++ rest))
    (agree : ∀ bare, bare.isEmpty = false → owners.find? bare = claimant? earlier bare) :
    serverViolations owners rest = rest.flatMap fun (language, e) =>
      serverFaults (ownerBelow? (earlier ++ rest) language) language e := by
  induction rest generalizing owners earlier with
  | nil => rfl
  | cons entry rest ih =>
    obtain ⟨language, e⟩ := entry
    have below : ownerBelow? (earlier ++ (language, e) :: rest) language = claimant? earlier := by
      funext bare
      rw [ownerBelow?, filter_lt_of_split order]
    have other : ∀ bare, claimant? earlier bare ≠ some language := by
      intro bare first
      have held : language ∈ Entries.keys earlier := mem_keys_of_claimant? first
      have split : (Entries.keys earlier ++ language :: Entries.keys rest).Pairwise (· < ·) := by
        simpa [Entries.Increasing, Entries.keys] using order
      obtain ⟨-, -, across⟩ := List.pairwise_append.mp split
      exact String.lt_irrefl language (across language held language List.mem_cons_self)
    have start : owners.Agree (claimant? earlier) language [] := by
      intro bare named
      simp [agree bare named]
    obtain ⟨found, after⟩ := extensionViolations_eq e.extensions other start
    have regroup : earlier ++ (language, e) :: rest = earlier ++ [(language, e)] ++ rest := by simp
    have owned : ∀ bare, bare.isEmpty = false →
        (extensionViolations language owners e.extensions).2.find? bare =
          claimant? (earlier ++ [(language, e)]) bare := by
      intro bare named
      rw [after bare named, claimant?_append_singleton, List.nil_append, ServerEntry.claims]
    have next := ih (regroup ▸ order) owned
    rw [List.flatMap_cons, regroup, ← next, ← regroup]
    simp only [serverViolations, below, serverFaults, found]

/-- What is wrong with settings: the time limit, and then the servers one after the other. -/
theorem violations_eq {s : Settings} (order : s.lsp.servers.Increasing) :
    s.violations = (if s.lsp.requestTimeout = 0 then [.noRequestTime] else []) ++
      s.lsp.servers.flatMap fun (language, e) =>
        serverFaults (ownerBelow? s.lsp.servers language) language e := by
  have whole : Entries.Increasing ([] ++ s.lsp.servers) := order
  rw [violations, serverViolations_eq whole fun bare _ => rfl, List.nil_append]

/-! ## Nothing wrong -/

/-- What settings must keep to. -/
structure Usable (s : Settings) : Prop where
  time : 1 ≤ s.lsp.requestTimeout
  commands : ∀ language e, (language, e) ∈ s.lsp.servers →
    ∃ c ∈ e.command.toList, Text.isBlank c = false
  extensions : ∀ language e, (language, e) ∈ s.lsp.servers →
    ∀ extension ∈ e.extensions, ∃ c ∈ extension.toList, c ≠ '.'
  /-- Two languages have no extension in common, dots in front aside. -/
  apart : ∀ language e other f, (language, e) ∈ s.lsp.servers → (other, f) ∈ s.lsp.servers →
    language ≠ other → ∀ x ∈ e.extensions, ∀ y ∈ f.extensions, bareExtension x ≠ bareExtension y

theorem isBlankCommand_eq_false_iff {command : String} :
    isBlankCommand command = false ↔ ∃ c ∈ command.toList, Text.isBlank c = false := by
  rw [isBlankCommand, List.all_eq_false]
  simp

theorem serverFaults_eq_nil_iff {below : String → Option String} :
    serverFaults below language e = [] ↔
      isBlankCommand e.command = false ∧ ∀ extension ∈ e.extensions,
        (bareExtension extension).isEmpty = false ∧ below (bareExtension extension) = none := by
  rw [serverFaults, List.append_eq_nil_iff, List.filterMap_eq_nil_iff]
  apply and_congr
  · by_cases blank : isBlankCommand e.command = true <;> simp [blank]
  · refine forall₂_congr fun extension _ => ?_
    by_cases empty : (bareExtension extension).isEmpty = true <;> simp [extensionFault?, empty]

/-- Nothing is wrong exactly with settings that keep to all. -/
theorem violations_eq_nil_iff {s : Settings} (order : s.lsp.servers.Increasing) :
    s.violations = [] ↔ s.Usable := by
  have time : (if s.lsp.requestTimeout = 0 then [Violation.noRequestTime] else []) = [] ↔
      1 ≤ s.lsp.requestTimeout := by
    by_cases zero : s.lsp.requestTimeout = 0
    · simp [zero]
    · simp [zero, Nat.one_le_iff_ne_zero]
  rw [violations_eq order, List.append_eq_nil_iff, List.flatMap_eq_nil_iff, time]
  constructor
  · rintro ⟨time, faultless⟩
    have each : ∀ language e, (language, e) ∈ s.lsp.servers →
        isBlankCommand e.command = false ∧ ∀ extension ∈ e.extensions,
          (bareExtension extension).isEmpty = false ∧
            ownerBelow? s.lsp.servers language (bareExtension extension) = none :=
      fun language e held => serverFaults_eq_nil_iff.mp (faultless (language, e) held)
    -- Of two languages with one extension the greater one would have an owner below it.
    have below : ∀ language e other f, (language, e) ∈ s.lsp.servers →
        (other, f) ∈ s.lsp.servers → other < language → ∀ x ∈ e.extensions,
          ∀ y ∈ f.extensions, bareExtension x ≠ bareExtension y := by
      intro language e other f held there less x hx y hy same
      obtain ⟨-, unowned⟩ := (each language e held).2 x hx
      have all := claimant?_eq_none_iff.mp unowned (other, f)
        (List.mem_filter.mpr ⟨there, decide_eq_true less⟩)
      have has : f.claims (bareExtension x) = true :=
        ServerEntry.claims_iff.mpr ⟨y, hy, same.symm⟩
      rw [has] at all
      cases all
    refine ⟨time, fun language e held => ?_, fun language e held extension given => ?_, ?_⟩
    · exact isBlankCommand_eq_false_iff.mp (each language e held).1
    · have named := ((each language e held).2 extension given).1
      by_contra dots
      push Not at dots
      have empty := bareExtension_isEmpty_iff.mpr dots
      rw [empty] at named
      cases named
    · intro language e other f held there different x hx y hy same
      by_cases less : language < other
      · exact below other f language e there held less y hy x hx same.symm
      · have more : other < language :=
          Std.lt_of_le_of_ne (String.not_lt.mp less) (Ne.symm different)
        exact below language e other f held there more x hx y hy same
  · rintro ⟨time, commands, extensions, apart⟩
    refine ⟨time, fun ⟨language, e⟩ held => ?_⟩
    refine serverFaults_eq_nil_iff.mpr ⟨?_, fun extension given => ⟨?_, ?_⟩⟩
    · exact isBlankCommand_eq_false_iff.mpr (commands language e held)
    · obtain ⟨c, hc, letter⟩ := extensions language e held extension given
      by_contra empty
      exact letter (bareExtension_isEmpty_iff.mp (Bool.of_not_eq_false empty) c hc)
    · apply claimant?_eq_none_iff.mpr
      intro entry kept
      obtain ⟨there, less⟩ := List.mem_filter.mp kept
      by_contra has
      obtain ⟨y, hy, same⟩ := ServerEntry.claims_iff.mp (Bool.of_not_eq_false has)
      have different : language ≠ entry.1 := (String.ne_of_lt (of_decide_eq_true less)).symm
      exact apart language e entry.1 entry.2 held there different extension given y hy same.symm

/-- Settings that were accepted when they were read. -/
inductive Accepted (s : Settings) : Prop
  | ofText (text : String) (read : (ofText text).1 = .ok s)
  | load (t : FileTree) (folder : Path) (project : Option Path)
      (loaded : (load t folder project).settings = .ok s)

theorem check_eq_ok_iff {s found : Settings} :
    s.check.1 = .ok found ↔ s.violations = [] ∧ found = s := by
  unfold check
  cases s.violations with
  | nil => simp [eq_comm]
  | cons first others => simp

theorem increasing_of_mergeFile {base s : Settings} {file : Path} {text : String}
    (order : base.lsp.servers.Increasing) (merged : mergeFile base file text = .ok s) :
    s.lsp.servers.Increasing := by
  unfold mergeFile at merged
  split at merged
  · cases merged
  · exact increasing_of_merge order merged

theorem increasing_of_loadUser {s : Settings} {t : FileTree} {folder : Path}
    (loaded : loadUser t folder = .ok s) : s.lsp.servers.Increasing := by
  unfold loadUser at loaded
  cases read : readFile t (folder.child fileName) with
  | error e => simp [read, bind, Except.bind] at loaded
  | ok text =>
    simp only [read, bind, Except.bind] at loaded
    split at loaded
    · exact increasing_of_mergeFile LspSettings.increasing_default loaded
    · obtain rfl := Except.ok.inj loaded
      exact LspSettings.increasing_default

theorem increasing_of_loadProject {base s : Settings} {t : FileTree} {project : Option Path}
    (order : base.lsp.servers.Increasing) (loaded : loadProject t project base = .ok s) :
    s.lsp.servers.Increasing := by
  unfold loadProject at loaded
  split at loaded
  · obtain rfl := Except.ok.inj loaded
    exact order
  · rename_i file _
    cases read : readFile t file with
    | error e => simp [read, bind, Except.bind] at loaded
    | ok text =>
      simp only [read, bind, Except.bind] at loaded
      exact increasing_of_mergeFile order loaded

/-- What was accepted was checked, and it is in order. -/
theorem Accepted.checked {s : Settings} (accepted : s.Accepted) :
    s.lsp.servers.Increasing ∧ s.violations = [] := by
  cases accepted with
  | ofText text read =>
    unfold Settings.ofText at read
    split at read
    · rename_i merged
      obtain ⟨faultless, rfl⟩ := check_eq_ok_iff.mp read
      exact ⟨increasing_of_merge LspSettings.increasing_default merged, faultless⟩
    · cases read
  | load t folder project loaded =>
    unfold Settings.load at loaded
    split at loaded
    · cases loaded
    · rename_i t _
      split at loaded
      · cases loaded
      · rename_i laid
        obtain ⟨faultless, rfl⟩ := check_eq_ok_iff.mp loaded
        cases user : loadUser t folder with
        | error e => simp [user, Except.bind] at laid
        | ok base =>
          simp only [user, Except.bind] at laid
          exact ⟨increasing_of_loadProject (increasing_of_loadUser user) laid, faultless⟩

theorem Accepted.increasing {s : Settings} (accepted : s.Accepted) :
    s.lsp.servers.Increasing := accepted.checked.1

theorem Accepted.usable {s : Settings} (accepted : s.Accepted) : s.Usable :=
  (violations_eq_nil_iff accepted.increasing).mp accepted.checked.2

/-! ## The language of a file -/

/-- Two languages that handle one extension are one. -/
theorem Usable.language_eq {s : Settings} (usable : s.Usable) {extension other : String}
    {f : ServerEntry} (held : (language, e) ∈ s.lsp.servers)
    (handles : e.handles extension = true) (there : (other, f) ∈ s.lsp.servers)
    (also : f.handles extension = true) : other = language := by
  rw [ServerEntry.handles_eq_claims, ServerEntry.claims_iff] at handles also
  obtain ⟨x, hx, xIs⟩ := handles
  obtain ⟨y, hy, yIs⟩ := also
  by_contra different
  exact usable.apart language e other f held there (Ne.symm different) x hx y hy
    (xIs.trans yIs.symm)

theorem mem_of_languageFor {s : Settings} {path : Path}
    (found : s.lsp.languageFor path = some language) :
    ∃ extension, path.extension?.bind Utf8.decode? = some extension ∧
      ∃ e, (language, e) ∈ s.lsp.servers ∧ e.handles extension = true := by
  simp only [LspSettings.languageFor, Option.bind_eq_bind, Option.bind_eq_some_iff,
    Option.pure_def] at found
  obtain ⟨bytes, ending, extension, decoded, ⟨first, e⟩, here, eq⟩ := found
  obtain rfl : first = language := Option.some.inj eq
  refine ⟨extension, Option.bind_eq_some_iff.mpr ⟨bytes, ending, decoded⟩, e, ?_, ?_⟩
  · exact List.mem_of_find?_eq_some here
  · have handled := List.find?_some here
    exact handled

/-- The language of a path is the one and only that handles its extension. -/
theorem Usable.languageFor_eq_some_iff {s : Settings} (usable : s.Usable) {path : Path} :
    s.lsp.languageFor path = some language ↔
      ∃ extension, path.extension?.bind Utf8.decode? = some extension ∧
        (∃ e, (language, e) ∈ s.lsp.servers ∧ e.handles extension = true) ∧
        ∀ other f, (other, f) ∈ s.lsp.servers → f.handles extension = true →
          other = language := by
  constructor
  · intro found
    obtain ⟨extension, ending, e, held, handles⟩ := mem_of_languageFor found
    exact ⟨extension, ending, ⟨e, held, handles⟩, fun other f there also =>
      usable.language_eq held handles there also⟩
  · rintro ⟨extension, ending, ⟨e, held, handles⟩, only⟩
    obtain ⟨bytes, given, decoded⟩ := Option.bind_eq_some_iff.mp ending
    have finds : (List.find? (fun e => e.2.handles extension) s.lsp.servers).isSome = true :=
      List.find?_isSome.mpr ⟨(language, e), held, handles⟩
    obtain ⟨⟨first, f⟩, here⟩ := Option.isSome_iff_exists.mp finds
    have handled := List.find?_some here
    have same : first = language := only first f (List.mem_of_find?_eq_some here) handled
    simp [LspSettings.languageFor, given, decoded, here, same]

end Settings

namespace ServerCommand

/-- Every language with a server can be launched by its command. -/
theorem find?_ofSettings {s : LspSettings} (order : s.servers.Increasing) {language : String}
    {e : ServerEntry} (held : (language, e) ∈ s.servers) :
    (ofSettings s).find? language = some ⟨e.command, e.args, s.requestLimit⟩ := by
  have found : Entries.find? language s.servers = some e := Entries.find?_of_mem order held
  have mapped := Entries.find?_map language
    (fun e : ServerEntry => ServerCommand.mk e.command e.args s.requestLimit) s.servers
  rw [found] at mapped
  exact mapped

end ServerCommand

end LanguageClient
