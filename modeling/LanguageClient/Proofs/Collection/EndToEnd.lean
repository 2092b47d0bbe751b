import LanguageClient.Proofs.Collection.Rest
import LanguageClient.Proofs.Workspace.Hosting

/-!
# From the files to the servers

Whatever the other servers do, a server that does its part is told of all files of its
language that can be read, in order, and then to exit (`Carries`).
-/

set_option autoImplicit false

namespace LanguageClient.Collection

variable {c c' : Collection} {launcher : Launcher} {language : String}
  {origin : Path × InitializeParams} {all acts : List (Path × String)}

/-- What a collection has done for a language whose servers do their part. -/
structure Carries (c : Collection) (language : String) (origin : Path × InitializeParams)
    (all acts : List (Path × String)) : Prop where
  conveys : c.Conveys language all acts
  origin : c.manager.workspace.origin = origin
  hosts : c.manager.stage = .running → c.manager.workspace.leaving = none ∧
    (∃ items, c.manager.workspace.Enlists items) ∧ c.manager.workspace.Hosts language acts
  parts : c.manager.stage ≠ .running → c.manager.workspace.Parts language acts
  beyond : c.manager.stage = .ended → c.manager.workspace.leaving = none

/-! ## Steps -/

theorem Carries.same (h : c.Carries language origin all acts)
    (conveys : c'.Conveys language all acts)
    (workspace : c'.manager.workspace = c.manager.workspace)
    (stage : c'.manager.stage = c.manager.stage) : c'.Carries language origin all acts := by
  refine ⟨conveys, ?_, ?_, ?_, ?_⟩ <;> rw [workspace]
  · exact h.origin
  · rw [stage]
    exact h.hosts
  · rw [stage]
    exact h.parts
  · rw [stage]
    exact h.beyond

theorem Carries.own (h : c.Carries language origin all acts)
    (rooted : origin.1.isAbsolute = true) {d : Workspace.Deed} (quiet : d.Quiet)
    (still : ¬ d.Leaves)
    (manager : c'.manager = { c.manager with workspace := c.manager.workspace.undergo d })
    (conveys : c'.Conveys language all acts)
    (before : c.manager.workspace.Cooperates language)
    (after : c'.manager.workspace.Cooperates language) : c'.Carries language origin all acts := by
  have folder : c.manager.workspace.folder.isAbsolute = true := by
    rw [← h.origin] at rooted
    exact rooted
  simp only [manager] at after
  refine ⟨conveys, ?_, ?_, ?_, ?_⟩ <;> simp only [manager]
  · exact (Workspace.origin_undergo _ d).trans h.origin
  · intro running
    obtain ⟨stays, ⟨items, enlists⟩, hosts⟩ := h.hosts running
    refine ⟨Workspace.leaving_undergo stays quiet still, ⟨_, enlists.undergo still⟩, ?_⟩
    exact hosts.undergo folder stays quiet still before after
  · exact fun left => (h.parts left).undergo folder quiet before after
  · exact fun ended => Workspace.leaving_undergo (h.beyond ended) quiet still

theorem Carries.activate (h : c.Carries language origin all acts)
    (rooted : origin.1.isAbsolute = true) (starts : ∃ server, launcher language = .ok server)
    {name : String} {path : Path} {text : String} {rest : List Manager.Command}
    (running : c.manager.stage = .running)
    (next : c.manager.queue = .activate name path text :: rest)
    (manager : c'.manager = { c.manager with
      queue := rest
      workspace := (c.manager.workspace.activate launcher name path text).1.1 })
    (feed : c'.feed = c.feed) (stage : c'.stage = c.stage)
    (before : c.manager.workspace.Cooperates language)
    (after : c'.manager.workspace.Cooperates language) :
    c'.Carries language origin all (acts ++ if name = language then [(path, text)] else []) := by
  have folder : c.manager.workspace.folder.isAbsolute = true := by
    rw [← h.origin] at rooted
    exact rooted
  obtain ⟨stays, ⟨items, enlists⟩, hosts⟩ := h.hosts running
  simp only [manager] at after
  let d : Workspace.Deed := .activate launcher name path text
  have still : ¬ d.Leaves := by simp [d, Workspace.Deed.Leaves]
  refine ⟨h.conveys.activate next manager feed stage, ?_, ?_, ?_, ?_⟩ <;> simp only [manager]
  · exact (Workspace.origin_activate launcher _ name path text).trans h.origin
  · intro _
    refine ⟨?_, ⟨_, enlists.undergo (d := d) still⟩, ?_⟩
    · exact (Workspace.leaving_activate launcher _ name path text).trans stays
    · exact hosts.activate folder enlists starts name path text before after
  · exact fun left => absurd running left
  · exact fun ended => absurd (running.symm.trans ended) (by simp)

theorem Carries.leave (h : c.Carries language origin all acts) {grace : Nat} {asked : Bool}
    {rest : List Manager.Command} (running : c.manager.stage = .running)
    (manager : c'.manager = { c.manager with
      queue := rest
      workspace := c.manager.workspace.leave grace
      stage := .leaving asked })
    (conveys : c'.Conveys language all acts) : c'.Carries language origin all acts := by
  obtain ⟨stays, -, hosts⟩ := h.hosts running
  refine ⟨conveys, ?_, ?_, ?_, ?_⟩ <;> simp only [manager]
  · exact (Workspace.origin_undergo _ (.leave grace)).trans h.origin
  · exact fun running => absurd running (by simp)
  · exact fun _ => hosts.leave stays grace
  · exact fun ended => absurd ended (by simp)

/-- Every deed takes the documents of the language on. -/
theorem Carries.step (h : c.Carries language origin all acts)
    (rooted : origin.1.isAbsolute = true) (starts : ∃ server, launcher language = .ok server)
    (stepped : Stepped c launcher c') (before : c.manager.workspace.Cooperates language)
    (after : c'.manager.workspace.Cooperates language) :
    ∃ acts', c'.Carries language origin all acts' := by
  cases stepped with
  | own quiet still manager feed stage =>
    have conveys : c'.Conveys language all acts :=
      h.conveys.aside (by rw [manager]) (by rw [manager]) (by rw [manager]) feed stage
    exact ⟨acts, h.own rooted quiet still manager conveys before after⟩
  | rests manager feed stage =>
    have conveys : c'.Conveys language all acts :=
      h.conveys.aside (by rw [manager]) (by rw [manager]) (by rw [manager]) feed stage
    exact ⟨acts, h.same conveys (by rw [manager]) (by rw [manager])⟩
  | @hands command _ feeding next manager feed stage =>
    obtain ⟨workspace, managing⟩ := send_workspace c.manager command
    have conveys := h.conveys.hand feeding next manager feed stage
    exact ⟨acts, h.same conveys (by rw [manager, workspace]) (by rw [manager, managing])⟩
  | listens fed manager feed stage =>
    have conveys := h.conveys.listen fed manager feed stage
    exact ⟨acts, h.same conveys (by rw [manager]) (by rw [manager])⟩
  | @asks _ grace listening manager feed stage =>
    obtain ⟨workspace, managing⟩ := send_workspace c.manager (.shutdown grace)
    have conveys := h.conveys.ask listening manager feed stage
    exact ⟨acts, h.same conveys (by rw [manager, workspace]) (by rw [manager, managing])⟩
  | ends leaving beyond manager feed stage =>
    have conveys := h.conveys.finish leaving beyond manager feed stage
    exact ⟨acts, h.same conveys (by rw [manager]) (by rw [manager])⟩
  | activates running next manager feed stage =>
    exact ⟨_, h.activate rooted starts running next manager feed stage before after⟩
  | leaves running next manager feed stage =>
    have conveys := h.conveys.leave running next manager feed stage
    exact ⟨acts, h.leave running manager conveys⟩
  | shut leaving left manager feed stage =>
    refine ⟨acts, h.conveys.shut leaving manager feed stage, ?_, ?_, ?_, ?_⟩ <;>
      simp only [manager]
    · exact h.origin
    · exact fun running => absurd running (by simp)
    · exact fun _ => h.parts (by simp [leaving])
    · exact fun _ => left

/-! ## Runs -/

/-- Whether the servers of a language do their part in every state of a run. -/
def Served (c : Collection) (language : String) (deeds : List (Launcher × Deed)) : Prop :=
  ∀ past, past <+: deeds → (c.through past).manager.workspace.Cooperates language

theorem served_nil : c.Served language [] ↔ c.manager.workspace.Cooperates language := by
  refine ⟨fun h => h [] List.nil_prefix, fun h past within => ?_⟩
  rw [List.prefix_nil.mp within]
  exact h

theorem served_cons {d : Launcher × Deed} {deeds : List (Launcher × Deed)} :
    c.Served language (d :: deeds) ↔
      c.manager.workspace.Cooperates language ∧ (c.undergo d).Served language deeds := by
  constructor
  · intro h
    refine ⟨h [] List.nil_prefix, fun past within => ?_⟩
    exact h (d :: past) (List.cons_prefix_cons.mpr ⟨rfl, within⟩)
  · rintro ⟨now, later⟩ past within
    cases past with
    | nil => exact now
    | cons e past =>
      obtain ⟨rfl, rest⟩ := List.cons_prefix_cons.mp within
      exact later past rest

instance decidableServed (language : String) :
    (c : Collection) → (deeds : List (Launcher × Deed)) → Decidable (c.Served language deeds)
  | _, [] => decidable_of_iff _ served_nil.symm
  | c, d :: deeds =>
    have : Decidable ((c.undergo d).Served language deeds) :=
      decidableServed language (c.undergo d) deeds
    decidable_of_iff _ served_cons.symm

theorem Carries.through (h : c.Carries language origin all acts)
    (rooted : origin.1.isAbsolute = true) {deeds : List (Launcher × Deed)}
    (starts : ∀ d ∈ deeds, ∃ server, d.1 language = .ok server)
    (serves : c.Served language deeds) :
    ∃ acts', (c.through deeds).Carries language origin all acts' := by
  induction deeds generalizing c acts with
  | nil => exact ⟨acts, h⟩
  | cons d deeds ih =>
    obtain ⟨before, later⟩ := served_cons.mp serves
    have after := later [] List.nil_prefix
    obtain ⟨_, first⟩ := h.step rooted (starts d List.mem_cons_self) (stepped c d) before after
    exact ih first (fun e member => starts e (List.mem_cons_of_mem _ member)) later

/-- The start of a collection in a workspace that was just created, with its root. -/
def fresh (s : LspSettings) (t : FileTree) (processId : Nat) (folder : Path)
    (root : Option String) (files : List Path) : Collection :=
  start s t { Workspace.create processId folder with rootUri := root } files

theorem carries_fresh (s : LspSettings) (t : FileTree) (processId : Nat) (folder : Path)
    (root : Option String) (files : List Path) (language : String) :
    (fresh s t processId folder root files).Carries language
      (folder, .ofClient processId root) (readable s t language files) [] := by
  have enlists := Workspace.enlists_create processId folder root
  refine ⟨conveys_start s t _ files language, rfl, fun _ => ⟨rfl, ⟨_, enlists⟩, ?_⟩, ?_,
    fun _ => rfl⟩
  · exact .absent (by simp [fresh, start, Manager.start, Workspace.tongues, Workspace.create]) rfl
  · exact fun left => absurd rfl left

/-- What the servers of the language were told is the beginning of all that one of them is to
be told, and in the end it is all of it. -/
theorem Carries.sent (h : c.Carries language origin all acts) {documents : List Document}
    (presents : Workspace.Presents origin language documents (Lane.visits none all)) :
    (∀ l ∈ c.manager.workspace.lanesOf language,
      l.session.sent <+: Workspace.told origin documents) ∧
    (c.stage = .done → (c.manager.workspace.lanesOf language).map (·.session.sent) =
      if all = [] then [] else [Workspace.told origin documents]) := by
  have is := h.origin
  subst is
  -- Before the manager leaves, more may come; afterwards everything was activated.
  by_cases running : c.manager.stage = .running
  · have undone : c.stage ≠ .done := fun done =>
      absurd (running.symm.trans (h.conveys.beyond done)) (by simp)
    refine ⟨?_, fun done => absurd done undone⟩
    obtain ⟨-, -, hosts⟩ := h.hosts running
    cases hosts with
    | absent unopened =>
      rw [Workspace.lanesOf_of_not_mem unopened]
      simp
    | @present n l _ _ bears open_ _ =>
      rw [bears.lanesOf]
      intro k member
      rw [List.mem_singleton.mp member]
      exact bears.sent h.conveys.within (fun shut => by simp [open_] at shut) presents
  · have whole := h.conveys.all_of_left running
    have parts := h.parts running
    rw [whole] at parts
    cases parts with
    | absent unopened =>
      rw [Workspace.lanesOf_of_not_mem unopened]
      simp
    | @present n l _ bears beyond visited =>
      rw [bears.lanesOf, if_neg visited, List.map_singleton]
      refine ⟨fun k member => ?_, fun done => ?_⟩
      · rw [List.mem_singleton.mp member]
        exact bears.sent List.prefix_rfl (fun _ => rfl) presents
      · have left := h.beyond (h.conveys.beyond done)
        rcases beyond with exits | ⟨departure, leaving, -⟩
        · rw [bears.sent_all exits presents]
        · rw [left] at leaving
          cases leaving

/-! ## The documents -/

/-- Seen from an absolute folder every file has a document. -/
theorem presents_of_rooted {folder : Path} (rooted : folder.isAbsolute = true)
    (greeting : InitializeParams) (language : String) (visits : List (Path × String)) :
    ∃ documents, Workspace.Presents (folder, greeting) language documents visits := by
  let l : Lane := .start (.launch language 0 none 0) greeting folder
  obtain ⟨documents, opens⟩ : ∃ documents, l.Opens documents (Lane.itinerary [] visits) :=
    Lane.opens_of_convertible (Lane.convertible_of_rooted rooted _)
  exact ⟨documents, opens⟩

/-- The documents are those of the visits, and their versions count the visits. -/
theorem getElem?_of_presents {documents : List Document} {visits : List (Path × String)}
    (presents : Workspace.Presents origin language documents visits) {i : Nat} {path : Path}
    {text : String} (here : visits[i]? = some (path, text)) :
    ∃ uri, Uri.ofPathIn origin.1 path = .ok uri ∧ documents[i]? = some (Document.mk uri language
      (Lane.occurrences ((visits.take i).map Prod.fst) path + 1) text) := by
  have visited := here
  rw [← Lane.map_visit_itinerary [] visits, List.getElem?_map] at visited
  obtain ⟨item, hi, is⟩ := Option.map_eq_some_iff.mp visited
  obtain ⟨rfl, rfl⟩ : item.path = path ∧ item.text = text := Prod.mk.inj is
  obtain ⟨-, version⟩ := Lane.getElem?_itinerary hi
  have one := congrArg (·[i]?) presents
  simp only [List.getElem?_map, hi, Option.map_some] at one
  obtain ⟨d, hd, same⟩ := Option.map_eq_some_iff.mp one
  obtain ⟨uri, spoken, counted, shown⟩ := Activation.document_eq_ok.mp same.symm
  refine ⟨d.uri, uri, ?_⟩
  rw [hd, ← spoken, ← shown, ← List.nil_append ((visits.take i).map Prod.fst), ← version, ← counted]

/-- For a language whose server starts and does its part, whatever the other servers do, the
files of the language that can be read, without those that repeat the one before them, are
the documents of which the server is told: one after the other with their texts, and with
versions that count how often a file has come up.  At every moment it has been told the
beginning of this and of the end; when the collection is done it has been told all, and if
there are no such files it was not started.  Until then the collection goes on, or it waits
for a time to come or for the exit of a server that was killed. -/
theorem every_document_delivered (s : LspSettings) (t : FileTree) (processId : Nat)
    (folder : Path) (rooted : folder.isAbsolute = true) (root : Option String)
    (files : List Path) (language : String) (deeds : List (Launcher × Deed))
    (starts : ∀ d ∈ deeds, ∃ server, d.1 language = .ok server)
    (serves : (fresh s t processId folder root files).Served language deeds) :
    let c := (fresh s t processId folder root files).through deeds
    let lanes := c.manager.workspace.lanes.filter fun l => l.session.language = language
    let visits := Lane.visits none (readable s t language files)
    ∃ documents : List Document, documents.length = visits.length ∧
      (∀ i path text, visits[i]? = some (path, text) →
        ∃ uri, Uri.ofPathIn folder path = .ok uri ∧
          documents[i]? = some (Document.mk uri language
            (Lane.occurrences ((visits.take i).map Prod.fst) path + 1) text)) ∧
      let told := Message.script (.ofClient processId root) documents ++ [.bye, .leave]
      (∀ l ∈ lanes, l.session.sent <+: told) ∧
      (c.stage = .done → lanes.map (·.session.sent) = if visits = [] then [] else [told]) ∧
      (c.stage = .done ∨ c.next?.isSome = true ∨ c.nextDeadline?.isSome = true ∨
        ∃ l ∈ c.manager.workspace.lanes, ∃ n call, l.session.call? n = some call ∧
          call.stage = .killed ∧ l.session.phase ≠ .exited) := by
  intro c lanes visits
  obtain ⟨acts, carries⟩ := (carries_fresh s t processId folder root files language).through rooted
    starts serves
  obtain ⟨documents, presents⟩ :=
    presents_of_rooted rooted (.ofClient processId root) language visits
  obtain ⟨always, finally_⟩ := carries.sent presents
  -- Only files that repeat the one before them are left out, so the first one never is.
  have none : readable s t language files = [] ↔ visits = [] := by
    cases all : readable s t language files <;> simp [visits, all, Lane.visits]
  have sound : c.Sound := (sound_start s t _ files rfl).through deeds
  refine ⟨documents, ?_, fun i path text here => getElem?_of_presents presents here, always, ?_,
    sound.goes_on⟩
  · have lengths := congrArg List.length presents
    rw [List.length_map, List.length_map] at lengths
    rw [lengths, ← List.length_map (f := Activation.visit), Lane.map_visit_itinerary]
  · intro done
    simp only [← none]
    exact finally_ done

/-- A launcher that starts one server only. -/
def onlyRust : Launcher := fun language =>
  if language = "rust" then .ok ⟨1000, none⟩ else .error (.spawnFailed language)

/-- A folder with a file for each of two servers. -/
def twoFiles : FileTree where
  current := []
  nodes := [(["a.rs".toUTF8.toList], .file "fn".toUTF8), (["b.py".toUTF8.toList], .file "x".toUTF8)]

/-- A run over the files, of which one comes up twice; the server that starts answers and
exits. -/
def wholeRun : List (Launcher × Deed) :=
  ([.goOn, .goOn, .goOn, .goOn, .serve, .serve, .serve,
    .consume 0, .session 0 (.resume 0), .session 0 .serve, .session 0 (.resume 0),
    .consume 0, .session 0 (.resume 1), .session 0 .serve, .session 0 (.resume 1),
    .session 0 (.serverWrites (Message.encode (.response 1 (.ok (.obj []))))),
    .session 0 .deliver, .session 0 (.resume 1),
    .consume 0, .session 0 (.resume 2), .session 0 .serve, .session 0 (.resume 2),
    .consume 0, .consume 0, .session 0 (.resume 3), .session 0 .serve, .session 0 (.resume 3),
    .consume 0, .goOn, .goOn, .advance 3000, .goOn, .serve,
    .depart, .consume 0, .depart, .session 0 (.resume 4), .session 0 .serve,
    .session 0 (.resume 4),
    .session 0 (.serverWrites (Message.encode (.response 2 (.ok .null)))),
    .session 0 .deliver, .session 0 (.resume 4), .session 0 .serve, .session 0 (.resume 4),
    .session 0 .serverCloses, .session 0 .deliver, .session 0 (.resume 4),
    .depart, .depart, .serve, .goOn] : List Deed).map (onlyRust, ·)

theorem every_document_delivered_two_files :
    let files : List Path := [.ofString "a.rs", .ofString "b.py", .ofString "a.rs"]
    let begun := fresh .default twoFiles 7 (.ofString "/") none files
    let c := begun.through wholeRun
    begun.Served "rust" wholeRun ∧ c.stage = .done ∧
      ∃ d : Document, d.uri = "file:///a.rs" ∧ d.version = 1 ∧ d.text = "fn" ∧
        (c.manager.workspace.lanes.filter fun l => l.session.language = "rust").map
            (·.session.sent) =
          [Message.script (.ofClient 7 none) [d] ++ [.bye, .leave]] := by
  intro files begun c
  have starts : ∀ d ∈ wholeRun, ∃ server, d.1 "rust" = .ok server := by
    intro d member
    obtain ⟨e, -, rfl⟩ := List.mem_map.mp member
    exact ⟨⟨1000, none⟩, rfl⟩
  have serves : begun.Served "rust" wholeRun := by decide +kernel
  have done : c.stage = .done := by decide +kernel
  have visits : Lane.visits none (readable .default twoFiles "rust" files) =
      [(.ofString "a.rs", "fn")] := by decide +kernel
  obtain ⟨documents, length, are, -, whole, -⟩ := every_document_delivered .default twoFiles 7
    (.ofString "/") (by decide +kernel) none files "rust" wholeRun starts serves
  rw [visits] at length are whole
  obtain ⟨d, rfl⟩ := List.length_eq_one_iff.mp length
  obtain ⟨uri, converts, is⟩ := are 0 (.ofString "a.rs") "fn" rfl
  have place : Uri.ofPathIn (.ofString "/") (.ofString "a.rs") = .ok "file:///a.rs" := by
    decide +kernel
  obtain rfl : uri = "file:///a.rs" := Except.ok.inj (converts.symm.trans place)
  have told := whole done
  rw [if_neg (by simp)] at told
  have is : d = _ := Option.some.inj is
  refine ⟨serves, done, d, ?_, ?_, ?_, ?_⟩
  · rw [is]
  · rw [is]
    rfl
  · rw [is]
  · simp only [c, begun]
    exact told

end LanguageClient.Collection
