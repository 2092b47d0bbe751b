import LanguageClient.Proofs.Workspace.Bearing

/-!
# Versions on the wire

Versions count how often a path has come up, while servers know documents by their URIs.
Where paths with different components do not lead to one place, every document that a server
is told to open again has a higher version than before; two spellings of one place take the
same versions.
-/

set_option autoImplicit false

namespace LanguageClient

/-- A document is what its JSON says. -/
theorem Document.toJson_inj {d e : Document} (h : d.toJson = e.toJson) : d = e := by
  have member : ∀ key, d.toJson.get? key = e.toJson.get? key := fun key => by rw [h]
  have uri := member "uri"
  have language := member "languageId"
  have version := member "version"
  have text := member "text"
  simp only [Document.toJson, Json.ofMembers, Json.get?, Entries.find?_ofList]
    at uri language version text
  obtain ⟨u, k, v, x⟩ := d
  obtain ⟨u', k', v', x'⟩ := e
  simp_all [Entries.find?]

namespace Message

variable {d e : Document} {ds : List Document} {greeting : InitializeParams}

theorem opened_inj (h : opened d = opened e) : d = e := by
  have params := congrArg (Json.get? "textDocument") (Message.notification.inj h).2
  simp only [aboutDocument, Json.ofMembers, Json.get?, Entries.find?_ofList] at params
  exact Document.toJson_inj (by simpa [Entries.find?] using params)

/-- Whether the second message has the higher version where both open one document. -/
def Rises (m m' : Message) : Prop :=
  ∀ d e, m = opened d → m' = opened e → d.uri = e.uri → d.version < e.version

theorem mem_switches {before : Option String} (told : opened d ∈ switches before ds) : d ∈ ds := by
  induction ds generalizing before with
  | nil => cases told
  | cons e ds ih =>
    rw [switches, List.mem_append, List.mem_cons] at told
    rcases told with closes | now | later
    · cases before <;> simp [closing, closed, opened] at closes
    · rw [opened_inj now]
      exact List.mem_cons_self
    · exact List.mem_cons_of_mem e (ih later)

/-- Documents whose versions rise are opened with rising versions. -/
theorem rises_switches (before : Option String)
    (rise : ds.Pairwise fun d e => d.uri = e.uri → d.version < e.version) :
    (switches before ds).Pairwise Rises := by
  induction rise generalizing before with
  | nil => exact .nil
  | @cons d ds first _ ih =>
    have closes : ∀ m ∈ closing before, ∀ d, m ≠ opened d := by
      intro m member d
      cases before <;> simp [closing, closed, opened] at member ⊢
      simp [member]
    rw [switches, List.pairwise_append, List.pairwise_cons]
    refine ⟨?_, ⟨?_, ih _⟩, ?_⟩
    · cases before <;> simp [closing]
    · intro m later e e' here there same
      rw [there] at later
      rw [opened_inj here] at first
      exact first e' (mem_switches later) same
    · intro m early m' _ e e' here
      exact absurd here (closes m early e)

theorem rises_script (greeting : InitializeParams)
    (rise : ds.Pairwise fun d e => d.uri = e.uri → d.version < e.version) :
    (script greeting ds ++ [bye, leave]).Pairwise Rises := by
  have other : ∀ m, (∀ d, m ≠ opened d) → ∀ m', Rises m m' ∧ Rises m' m := by
    intro m never m'
    exact ⟨fun d _ here => absurd here (never d), fun _ e _ there => absurd there (never e)⟩
  have hello : ∀ d, hello greeting ≠ opened d := by simp [hello, opened]
  have announced : ∀ d, announced ≠ opened d := by simp [announced, opened]
  have bye : ∀ d, bye ≠ opened d := by simp [bye, opened]
  have leave : ∀ d, leave ≠ opened d := by simp [leave, opened]
  rw [script, List.cons_append, List.cons_append, List.pairwise_cons, List.pairwise_cons,
    List.pairwise_append]
  refine ⟨fun m _ => (other _ hello m).1, fun m _ => (other _ announced m).1,
    rises_switches none rise, ?_, fun m _ m' ends => ?_⟩
  · exact .cons (fun m _ => (other _ bye m).1) (.cons (fun m _ => (other _ leave m).1) .nil)
  · rw [List.mem_cons, List.mem_singleton] at ends
    rcases ends with rfl | rfl
    · exact (other _ bye m).2
    · exact (other _ leave m).2

end Message

namespace Lane

variable {l : Lane} {ds : List Document} {items done : List Activation}

/-- Whether two paths that lead from the folder to one place are always the same. -/
def Apart (folder : Path) (items : List Activation) : Prop :=
  ∀ a ∈ items, ∀ b ∈ items,
    (folder.join a.path).same (folder.join b.path) = true → a.path.same b.path = true

theorem Apart.subset {folder : Path} (h : Apart folder items) (sub : done ⊆ items) :
    Apart folder done :=
  fun a ha b hb => h a (sub ha) b (sub hb)

/-- The versions of opened documents rise where paths are told apart. -/
theorem Opens.rises (h : l.Opens ds done) (rooted : l.folder.isAbsolute = true)
    (rise : done.Pairwise fun a b => a.path.same b.path = true → a.version < b.version)
    (apart : Apart l.folder done) :
    ds.Pairwise fun d e => d.uri = e.uri → d.version < e.version := by
  have opened : ds.map Except.ok = done.map (Activation.document l.folder l.session.language) := h
  rw [List.pairwise_iff_getElem] at rise ⊢
  intro i j hi hj less same
  have length : ds.length = done.length := by
    have lengths := congrArg List.length opened
    rwa [List.length_map, List.length_map] at lengths
  have is : ∀ k (hk : k < ds.length), done[k].document l.folder l.session.language = .ok ds[k] := by
    intro k hk
    have one := congrArg (·[k]?) opened
    simpa [List.getElem?_eq_getElem hk, List.getElem?_eq_getElem (length ▸ hk)] using one.symm
  obtain ⟨uri, -, version, -⟩ := Activation.document_eq_ok.mp (is i hi)
  obtain ⟨uri', -, version', -⟩ := Activation.document_eq_ok.mp (is j hj)
  rw [version, version']
  have place : Uri.ofPathIn l.folder done[i].path = Uri.ofPathIn l.folder done[j].path := by
    rw [uri, uri', same]
  have same := apart _ (List.getElem_mem _) _ (List.getElem_mem _)
    ((Uri.ofPathIn_eq_iff rooted _ _).mp place)
  exact rise i j (length ▸ hi) (length ▸ hj) less same

/-- What a lane has sent opens documents with rising versions where the paths that were queued
are told apart. -/
theorem Holds.rises (h : l.Holds items) (rooted : l.folder.isAbsolute = true)
    (apart : Apart l.folder items) : l.session.sent.Pairwise Message.Rises := by
  have rise : items.Pairwise fun a b => a.path.same b.path = true → a.version < b.version := by
    rw [h.queues.itinerary]
    exact pairwise_version_itinerary [] _
  have silent : ([.hello l.greeting, .leave] : List Message).Pairwise Message.Rises := by
    have whole := Message.rises_script l.greeting (List.Pairwise.nil (α := Document))
    exact whole.sublist (by simp [Message.script, Message.switches])
  cases h.scripted with
  | refused _ sent => exact silent.sublist sent.sublist
  | early sent => exact silent.sublist (sent.trans (List.prefix_append [_] [_])).sublist
  | under _ within opens sent =>
    have risen := opens.rises rooted (rise.sublist within.sublist) (apart.subset within.subset)
    exact (Message.rises_script l.greeting risen).sublist
      (sent.trans (List.prefix_append _ _)).sublist
  | beyond _ _ _ opens sent =>
    exact (Message.rises_script l.greeting (opens.rises rooted rise apart)).sublist sent.sublist

end Lane

namespace Workspace

/-- Where the activated paths of each language that lead from the folder to one place are the
same, the documents that a session is told to open have rising versions, so that a document
which is opened again has a higher version than ever before. -/
theorem versions_rise (processId : Nat) (folder : Path) (rooted : folder.isAbsolute = true)
    (root : Option String) (deeds : List Deed)
    (apart : ∀ language, ∀ v ∈ activated language deeds, ∀ w ∈ activated language deeds,
      (folder.join v.1).same (folder.join w.1) = true → v.1.same w.1 = true) :
    ∀ l ∈ (({ create processId folder with rootUri := root } : Workspace).through deeds).lanes,
      ∀ (i j : Nat) (d e : Document), i < j →
        l.session.sent[i]? = some (Message.opened d) →
        l.session.sent[j]? = some (Message.opened e) → d.uri = e.uri → d.version < e.version := by
  intro l member i j d e less first second
  have converts : Convertible folder ([] ++ deeds) := fun language =>
    Lane.convertible_of_rooted rooted _
  have tracked := (tracked_create processId folder root).through converts
  obtain ⟨n, hl⟩ := List.mem_iff_getElem?.mp member
  obtain ⟨acts, serves⟩ := tracked.lanes n l hl
  obtain ⟨items, holds, within, -⟩ := serves.kept.holds
  -- What is queued in a lane was activated for its language.
  have seen : l.folder = folder := serves.folder.trans (folder_through _ deeds)
  have made : ∀ a ∈ items, a.visit ∈ activated l.session.language deeds := by
    intro a ha
    have visited := within.subset (List.mem_map_of_mem ha)
    exact serves.block.subset (Lane.visits_subset none acts visited)
  have rises := holds.rises (seen ▸ rooted) fun a ha b hb same =>
    apart l.session.language a.visit (made a ha) b.visit (made b hb) (seen ▸ same)
  obtain ⟨hi, is⟩ := List.getElem?_eq_some_iff.mp first
  obtain ⟨hj, js⟩ := List.getElem?_eq_some_iff.mp second
  exact List.pairwise_iff_getElem.mp rises i j hi hj less d e is js

/-- A call of the first lane is begun, and its ask is answered. -/
def calling (n : Nat) : List Deed :=
  [.consume 0, .session 0 (.resume n), .session 0 .serve, .session 0 (.resume n)]

/-- A server completes the handshake and is led through some documents. -/
def visiting (paths : List Path) : List Deed :=
  paths.map (.activate (fun _ => .ok ⟨1000, none⟩) "python" · "x") ++ calling 0 ++ calling 1 ++
    [.session 0 (.serverWrites (Message.encode (.response 1 (.ok (.obj []))))),
      .session 0 .deliver, .session 0 (.resume 1)] ++
    calling 2 ++ [.consume 0] ++ calling 3 ++ [.consume 0] ++ calling 4 ++ calling 5 ++
    [.consume 0] ++ calling 6 ++ calling 7

/-- Two spellings of one path are one document, and it is opened twice with one version. -/
theorem versions_repeat : ¬ ∀ l ∈ (({ create 7 (.ofString "/") with rootUri := none } :
      Workspace).through (visiting [.ofString "./a.py", .ofString "a.py"])).lanes,
    ∀ (i j : Nat) (d e : Document), i < j → l.session.sent[i]? = some (Message.opened d) →
      l.session.sent[j]? = some (Message.opened e) → d.uri = e.uri → d.version < e.version := by
  intro rise
  let d : Document := ⟨"file:///a.py", "python", 1, "x"⟩
  have sent : ((({ create 7 (.ofString "/") with rootUri := none } : Workspace).through
      (visiting [.ofString "./a.py", .ofString "a.py"])).lanes.map fun l => l.session.sent) =
        [Message.script (.ofClient 7 none) [d, d]] := by
    decide +kernel
  obtain ⟨l, lanes, said⟩ := List.map_eq_singleton_iff.mp sent
  have member : l ∈ (({ create 7 (.ofString "/") with rootUri := none } : Workspace).through
      (visiting [.ofString "./a.py", .ofString "a.py"])).lanes := by
    rw [lanes]
    exact List.mem_singleton_self l
  have less := rise l member 2 4 d d (by decide) (by rw [said]; rfl) (by rw [said]; rfl) rfl
  exact absurd less (by decide)

theorem mem_of_visiting {language : String} {paths : List Path} {v : Path × String}
    (made : v ∈ activated language (visiting paths)) : v.1 ∈ paths := by
  obtain ⟨deed, among, one⟩ := List.mem_flatMap.mp made
  cases deed with
  | activate launcher name path text =>
    have visits : v = (path, text) := by
      simp only [Deed.activated] at one
      split at one
      · exact List.mem_singleton.mp one
      · cases one
    obtain ⟨p, member, -, -, rfl, -⟩ : ∃ p ∈ paths, (fun _ => .ok ⟨1000, none⟩) = launcher ∧
        "python" = name ∧ p = path ∧ "x" = text := by
      simpa [visiting, calling] using among
    rw [visits]
    exact member
  | leave | depart | advance | session | consume => cases one

theorem versions_rise_reopened :
    ∃ l, (({ create 7 (.ofString "/") with rootUri := none } : Workspace).through
        (visiting [.ofString "/a.py", .ofString "/b.py", .ofString "/a.py"])).lanes = [l] ∧
      ∃ d e, l.session.sent[2]? = some (Message.opened d) ∧
        l.session.sent[6]? = some (Message.opened e) ∧ d.uri = e.uri ∧ d.version < e.version := by
  let paths : List Path := [.ofString "/a.py", .ofString "/b.py", .ofString "/a.py"]
  have made : ∀ {language v}, v ∈ activated language (visiting paths) →
      v.1.isAbsolute = true := by
    intro language v member
    have all : ∀ p ∈ paths, p.isAbsolute = true := by decide +kernel
    exact all v.1 (mem_of_visiting member)
  have apart : ∀ language, ∀ v ∈ activated language (visiting paths),
      ∀ w ∈ activated language (visiting paths),
        ((Path.ofString "/").join v.1).same ((Path.ofString "/").join w.1) = true →
          v.1.same w.1 = true := by
    intro language v hv w hw same
    rwa [Path.join_of_isAbsolute _ (made hv), Path.join_of_isAbsolute _ (made hw)] at same
  let d (name : String) (version : Int) : Document := ⟨"file:///" ++ name, "python", version, "x"⟩
  have sent : ((({ create 7 (.ofString "/") with rootUri := none } : Workspace).through
      (visiting paths)).lanes.map fun l => l.session.sent) =
        [Message.script (.ofClient 7 none) [d "a.py" 1, d "b.py" 1, d "a.py" 2]] := by
    decide +kernel
  obtain ⟨l, lanes, said⟩ := List.map_eq_singleton_iff.mp sent
  have first : l.session.sent[2]? = some (Message.opened (d "a.py" 1)) := by rw [said]; rfl
  have again : l.session.sent[6]? = some (Message.opened (d "a.py" 2)) := by rw [said]; rfl
  refine ⟨l, lanes, _, _, first, again, rfl, ?_⟩
  exact versions_rise 7 (.ofString "/") (by decide +kernel) none (visiting paths) apart l
    (by rw [lanes]; exact List.mem_singleton_self l) 2 6 _ _ (by decide) first again rfl

end Workspace

end LanguageClient
