import LanguageClient.Proofs.Collection.Conveyance
import LanguageClient.Proofs.Settings.Routing

/-!
# Every document has a server

A document is handed on for the language that the settings give to its path, and the settings
have a command for that language.  So whatever happens in a collection, no activation fails
because a server is not known.
-/

set_option autoImplicit false

namespace LanguageClient

/-! ## Activations -/

theorem ServerCommand.noServer_of_launcher {servers : Entries ServerCommand}
    {start : ServerCommand → Except IoError Nat} {language other : String}
    (refused : launcher servers start language = .error (.noServer other)) :
    servers.find? language = none := by
  unfold launcher at refused
  split at refused
  · assumption
  · split at refused <;> cases refused

theorem Lane.activate_ne_noServer (l : Lane) (path : Path) (text other : String) :
    (l.activate path text).2 ≠ .error (.noServer other) := by
  unfold activate
  split
  · simp
  · dsimp only
    split <;> simp

theorem Workspace.activateIn_ne_noServer (w : Workspace) (number : Nat) (path : Path)
    (text other : String) : (w.activateIn number path text).2 ≠ .error (.noServer other) := by
  unfold activateIn
  split
  · simp
  · rename_i l _
    exact l.activate_ne_noServer path text other

/-- No server is known only to the launcher. -/
theorem Workspace.launcher_of_noServer {launcher : Launcher} {w : Workspace}
    {language other : String} {path : Path} {text : String}
    (failed : (w.activate launcher language path text).2 = .error (.noServer other)) :
    launcher language = .error (.noServer other) := by
  unfold activate at failed
  split at failed
  · exact absurd failed (w.activateIn_ne_noServer _ path text other)
  · split at failed
    · rename_i refused
      rw [refused, Except.error.inj failed]
    · exact absurd failed (activateIn_ne_noServer _ _ path text other)

namespace Collection

variable {c c' : Collection} {launcher : Launcher} {known : String → Prop} {path : Path}
  {other : String}

/-! ## What is seen -/

/-- What some deeds let be seen. -/
def seen (c : Collection) : List (Launcher × Deed) → List Manager.Event
  | [] => []
  | d :: deeds => (c.step d.1 d.2.action).2 ++ (c.undergo d).seen deeds

theorem failed_of_stepManager {a : Workspace.Action} {e : ClientError} :
    .failed path e ∉ (c.stepManager launcher (.workspace a)).2 := by
  simp [stepManager, Manager.step, Manager.stepWorkspace]

theorem failed_of_activate {m : Manager} {language text : String} {named : Path}
    {e : ClientError} (failed : .failed path e ∈ (m.activate launcher language named text).2) :
    (m.workspace.activate launcher language named text).2 = .error e := by
  simp only [Manager.activate, List.mem_append, List.mem_map, reduceCtorEq, and_false,
    exists_false, false_or] at failed
  unfold Manager.tell at failed
  split at failed
  · simp at failed
  · simp at failed
  · rename_i outcome
    rw [outcome, (Manager.Event.failed.inj (List.mem_singleton.mp failed)).2]

/-- Only an activation that is carried out is said to have failed. -/
theorem failed_of_step {d : Deed} {e : ClientError}
    (failed : .failed path e ∈ (c.step launcher d.action).2) :
    ∃ language named text rest, c.manager.queue = .activate language named text :: rest ∧
      ({ c.manager with queue := rest }.workspace.activate launcher language named text).2 =
        .error e := by
  cases d with
  | goOn => simp [Deed.action, step] at failed
  | serve =>
    simp only [Deed.action, step, stepManager, Manager.step, Manager.serve] at failed
    split at failed
    · split at failed
      · rename_i language named text rest next
        exact ⟨language, named, text, rest, next, failed_of_activate failed⟩
      · simp at failed
      · split at failed <;> simp at failed
    · split at failed
      · split at failed <;> simp at failed
      · simp at failed
    · simp at failed
  | depart => exact absurd failed failed_of_stepManager
  | advance milliseconds => exact absurd failed failed_of_stepManager
  | session number a => exact absurd failed failed_of_stepManager
  | consume number => exact absurd failed failed_of_stepManager

/-! ## Known languages -/

/-- Whether the documents that wait have languages of a kind only. -/
def Addresses (c : Collection) (known : String → Prop) : Prop :=
  ∀ language path text,
    .activate language path text ∈ c.manager.queue ++ c.feed → known language

theorem Addresses.subset (h : c.Addresses known)
    (within : ∀ language path text,
      .activate language path text ∈ c'.manager.queue ++ c'.feed →
        .activate language path text ∈ c.manager.queue ++ c.feed) : c'.Addresses known :=
  fun language path text waits => h language path text (within language path text waits)

theorem mem_queue_send {m : Manager} {command sent : Manager.Command}
    (waits : sent ∈ (m.send command).1.queue) : sent ∈ m.queue ∨ sent = command := by
  unfold Manager.send at waits
  split at waits
  · simpa using waits
  · exact .inl waits

/-- No deed adds a document to those that wait. -/
theorem Addresses.step (h : c.Addresses known) (stepped : Stepped c launcher c') :
    c'.Addresses known := by
  apply h.subset
  intro language path text waits
  cases stepped with
  | own _ _ manager feed _ =>
    rw [manager, feed] at waits
    exact waits
  | rests manager feed _ =>
    rw [manager, feed] at waits
    exact waits
  | hands _ next manager feed _ =>
    rw [manager, feed] at waits
    rw [next]
    rcases List.mem_append.mp waits with queued | fed
    · rcases mem_queue_send queued with before | rfl
      · exact List.mem_append_left _ before
      · exact List.mem_append_right _ List.mem_cons_self
    · exact List.mem_append_right _ (List.mem_cons_of_mem _ fed)
  | listens _ manager feed _ =>
    rw [manager, feed] at waits
    exact waits
  | asks _ manager feed _ =>
    rw [manager, feed] at waits
    rcases List.mem_append.mp waits with queued | fed
    · rcases mem_queue_send queued with before | order
      · exact List.mem_append_left _ before
      · cases order
    · exact List.mem_append_right _ fed
  | ends _ _ manager feed _ =>
    rw [manager, feed] at waits
    exact waits
  | activates _ next manager feed _ =>
    rw [manager, feed] at waits
    rw [next]
    exact List.mem_cons_of_mem _ waits
  | leaves _ next manager feed _ =>
    rw [manager, feed] at waits
    rcases next with next | ⟨-, empty, rfl⟩
    · rw [next]
      exact List.mem_cons_of_mem _ waits
    · rw [empty]
      exact waits
  | shut _ _ manager feed _ =>
    rw [manager, feed] at waits
    exact waits

theorem addresses_start (s : LspSettings) (t : FileTree) (w : Workspace) (files : List Path) :
    (start s t w files).Addresses (· ∈ s.servers.keys) := by
  intro language path text waits
  have fed : .activate language path text ∈
      (files.filterMap (document s t)).filterMap command? := waits
  obtain ⟨d, hd, is⟩ := List.mem_filterMap.mp fed
  obtain ⟨file, -, made⟩ := List.mem_filterMap.mp hd
  obtain ⟨name, found, rfl⟩ := Option.map_eq_some_iff.mp made
  have same : name = language := by
    split at is
    · exact (Manager.Command.activate.inj (Option.some.inj is)).1
    · cases is
  obtain ⟨_, _, e, held, _⟩ := Settings.mem_of_languageFor (s := ⟨.default, s⟩) found
  rw [← same]
  exact List.mem_map_of_mem held

/-- Whatever happens, no server is missing for a document that waits. -/
theorem Addresses.seen (h : c.Addresses known) {deeds : List (Launcher × Deed)}
    (serves : ∀ d ∈ deeds, ∀ language, known language →
      ∀ other, d.1 language ≠ .error (.noServer other)) :
    .failed path (.noServer other) ∉ c.seen deeds := by
  induction deeds generalizing c with
  | nil => exact List.not_mem_nil
  | cons d deeds ih =>
    intro failed
    rcases List.mem_append.mp failed with now | later
    · obtain ⟨language, named, text, rest, next, refused⟩ := failed_of_step now
      have waits : .activate language named text ∈ c.manager.queue ++ c.feed := by
        rw [next]
        exact List.mem_cons_self
      exact serves d List.mem_cons_self language (h language named text waits) other
        (Workspace.launcher_of_noServer refused)
    · refine ih (h.step (stepped c d)) (fun e member => serves e ?_) later
      exact List.mem_cons_of_mem _ member

/-- With the servers of the settings, no document of a collection lacks a server. -/
theorem server_known {s : LspSettings} (order : s.servers.Increasing) (t : FileTree)
    (w : Workspace) (files : List Path) {deeds : List (Launcher × Deed)}
    (launches : ∀ d ∈ deeds, ∃ begins,
      d.1 = ServerCommand.launcher (ServerCommand.ofSettings s) begins) :
    .failed path (.noServer other) ∉ (start s t w files).seen deeds := by
  apply (addresses_start s t w files).seen
  intro d member language held other refused
  obtain ⟨begins, is⟩ := launches d member
  obtain ⟨⟨_, e⟩, there, rfl⟩ := List.mem_map.mp held
  rw [is] at refused
  have unknown := ServerCommand.noServer_of_launcher refused
  rw [ServerCommand.find?_ofSettings order there] at unknown
  cases unknown

end Collection

namespace Settings

/-- Settings have nothing wrong exactly when requests are waited for, every server has a
command, every extension a character besides dots, and no two languages an extension in
common.  Otherwise each violation is listed once: the time limit, and then, language by
language, the command and each extension that is empty or belongs to a smaller language, the
smallest of which is named.  Accepted settings give a path the one and only language that
handles its extension and have the server to launch for it, so that no file of a collection
lacks one. -/
theorem routing_unambiguous (s : Settings) (order : s.lsp.servers.Increasing) :
    (s.violations = [] ↔ s.Usable) ∧
    (s.violations = (if s.lsp.requestTimeout = 0 then [.noRequestTime] else []) ++
      s.lsp.servers.flatMap fun (language, e) =>
        (if isBlankCommand e.command then [.blankCommand language] else []) ++
          e.extensions.filterMap fun extension =>
            if (bareExtension extension).isEmpty then some (.emptyExtension language)
            else (ownerBelow? s.lsp.servers language (bareExtension extension)).map
              (.sharedExtension language (bareExtension extension))) ∧
    (∀ language bare owner, ownerBelow? s.lsp.servers language bare = some owner ↔
      (owner < language ∧ ∃ e, (owner, e) ∈ s.lsp.servers ∧ e.claims bare = true) ∧
        ∀ other e, other < language → (other, e) ∈ s.lsp.servers → e.claims bare = true →
          owner ≤ other) ∧
    (s.Accepted →
      (∀ path language, s.lsp.languageFor path = some language ↔
        ∃ extension, path.extension?.bind Utf8.decode? = some extension ∧
          (∃ e, (language, e) ∈ s.lsp.servers ∧ e.handles extension = true) ∧
          ∀ other f, (other, f) ∈ s.lsp.servers → f.handles extension = true →
            other = language) ∧
      (∀ path language, s.lsp.languageFor path = some language →
        ∃ e, (language, e) ∈ s.lsp.servers ∧
          (ServerCommand.ofSettings s.lsp).find? language =
            some ⟨e.command, e.args, s.lsp.requestLimit⟩) ∧
      ∀ t w files (deeds : List (Launcher × Collection.Deed)),
        (∀ d ∈ deeds, ∃ begins,
          d.1 = ServerCommand.launcher (ServerCommand.ofSettings s.lsp) begins) →
        ∀ path language,
          .failed path (.noServer language) ∉ (Collection.start s.lsp t w files).seen deeds) := by
  refine ⟨violations_eq_nil_iff order, violations_eq order, ?_, fun accepted => ⟨?_, ?_, ?_⟩⟩
  · exact fun language bare owner => ownerBelow?_eq_some_iff order
  · exact fun path language => accepted.usable.languageFor_eq_some_iff
  · intro path language found
    obtain ⟨_, _, e, held, _⟩ := mem_of_languageFor found
    exact ⟨e, held, ServerCommand.find?_ofSettings order held⟩
  · exact fun t w files deeds launches path language =>
      Collection.server_known order t w files launches

/-- The settings of a text that adds a server with a dotted extension to the others. -/
def withGo : Settings :=
  ⟨.default, true, 10, 5, [("go", ⟨"gopls", ["serve"], [".go"]⟩),
    ("python", ⟨"pylsp", [], ["py", "pyi"]⟩), ("rust", ⟨"rust-analyzer", [], ["rs"]⟩)]⟩

theorem routing_unambiguous_go :
    let file : Path := .ofString "a.go"
    let t : FileTree := ⟨[], [(["a.go".toUTF8.toList], .file "package".toUTF8)]⟩
    let launcher := ServerCommand.launcher (ServerCommand.ofSettings withGo.lsp) fun _ => .ok 7
    let begun := Collection.start withGo.lsp t (.create 1 (.ofString "/")) [file]
    withGo.violations = [] ∧ withGo.lsp.languageFor file = some "go" ∧
      launcher "go" = .ok ⟨10000, some 7⟩ ∧
      ∀ language,
        .failed file (.noServer language) ∉ begun.seen [(launcher, .goOn), (launcher, .serve)] := by
  intro file t launcher begun
  have order : withGo.lsp.servers.Increasing := by
    rw [Entries.Increasing]
    decide +kernel
  have accepted : withGo.Accepted :=
    .ofText "[lsp.servers.go]\ncommand = \"gopls\"\nargs = [\"serve\"]\nextensions = [\".go\"]\n"
      (by decide +kernel)
  obtain ⟨faultless, -, -, routes⟩ := routing_unambiguous withGo order
  obtain ⟨routes, launches, serves⟩ := routes accepted
  have ending : file.extension?.bind Utf8.decode? = some "go" := by decide +kernel
  have found : withGo.lsp.languageFor file = some "go" := by
    apply (routes file "go").mpr
    refine ⟨"go", ending, ⟨_, List.mem_cons_self, by decide +kernel⟩, fun other f held => ?_⟩
    simp only [withGo, List.mem_cons, Prod.mk.injEq, List.not_mem_nil, or_false] at held
    rcases held with ⟨rfl, rfl⟩ | ⟨rfl, rfl⟩ | ⟨rfl, rfl⟩
    · exact fun _ => rfl
    · exact fun handles => absurd handles (by decide +kernel)
    · exact fun handles => absurd handles (by decide +kernel)
  obtain ⟨e, held, command⟩ := launches file "go" found
  refine ⟨faultless.mpr accepted.usable, found, ?_, serves t _ [file] _ ?_ file⟩
  · simp only [launcher, ServerCommand.launcher, command]
    rfl
  · intro d member
    refine ⟨fun _ => .ok 7, ?_⟩
    rcases List.mem_cons.mp member with rfl | member
    · rfl
    · rw [List.mem_singleton.mp member]

end Settings

end LanguageClient
