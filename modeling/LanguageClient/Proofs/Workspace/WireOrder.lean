import LanguageClient.Proofs.Entries
import LanguageClient.Proofs.Workspace.Courier
import LanguageClient.Workspace.Step

/-!
# The order on the wire

A workspace is used by activating documents and by leaving it; everything else happens by
itself or at the servers, in any order.  Each server of a workspace gets its messages in
the order of the script, with the documents of its language that were activated.
-/

set_option autoImplicit false

namespace LanguageClient.Workspace

/-! ## Deeds -/

/-- What can happen to a workspace: a document is activated, the workspace is left, and the
departure, the sessions and the couriers go on. -/
inductive Deed where
  | activate (launcher : Launcher) (language : String) (path : Path) (text : String)
  | leave (grace : Nat)
  | depart
  | advance (milliseconds : Nat)
  | session (number : Nat) (a : Session.Action)
  | consume (number : Nat)

/-- A workspace after a deed. -/
def undergo (w : Workspace) : Deed → Workspace
  | .activate launcher language path text => (w.activate launcher language path text).1.1
  | .leave grace => (w.step (.leave grace)).1
  | .depart => (w.step .depart).1
  | .advance milliseconds => (w.step (.advance milliseconds)).1
  | .session number a => (w.step (.lane number (.session a))).1
  | .consume number => (w.step (.lane number .consume)).1

/-- A workspace after some deeds. -/
def through (w : Workspace) (deeds : List Deed) : Workspace := deeds.foldl undergo w

/-- The document of a language that a deed activates. -/
def Deed.activated (language : String) : Deed → List (Path × String)
  | .activate _ l path text => if l = language then [(path, text)] else []
  | _ => []

/-- The documents of a language that deeds activate. -/
def activated (language : String) (deeds : List Deed) : List (Path × String) :=
  deeds.flatMap (Deed.activated language)

/-! ## Lanes -/

/-- A lane of a workspace after some deeds: its documents are some that were activated one
after the other, and as long as it is registered they are the last ones. -/
structure Serves (w : Workspace) (deeds : List Deed) (number : Nat) (l : Lane)
    (acts : List (Path × String)) : Prop where
  kept : l.Kept acts
  folder : l.folder = w.folder
  block : acts <:+: activated l.session.language deeds
  latest : w.registered.find? l.session.language = some number →
    acts <:+ activated l.session.language deeds

/-- What holds of a workspace after some deeds. -/
structure Tracked (w : Workspace) (deeds : List Deed) : Prop where
  lanes : ∀ n l, w.lanes[n]? = some l → ∃ acts, w.Serves deeds n l acts
  registered : ∀ language n, w.registered.find? language = some n →
    ∃ l, w.lanes[n]? = some l ∧ l.session.language = language

variable {w w' : Workspace} {deeds : List Deed} {n : Nat} {l : Lane}
  {acts : List (Path × String)}

theorem activated_snoc (language : String) (deeds : List Deed) (d : Deed) :
    activated language (deeds ++ [d]) = activated language deeds ++ d.activated language := by
  simp [activated]

/-- A deed that does not concern a lane leaves it as it is. -/
theorem Serves.aside (h : w.Serves deeds n l acts) (d : Deed) (folder : w'.folder = w.folder)
    (registered : w'.registered.find? l.session.language = some n →
      w.registered.find? l.session.language = some n ∧ d.activated l.session.language = []) :
    w'.Serves (deeds ++ [d]) n l acts := by
  refine ⟨h.kept, h.folder.trans folder.symm, ?_, fun still => ?_⟩
  · rw [activated_snoc]
    exact h.block.trans (List.prefix_append _ _).isInfix
  · obtain ⟨before, none⟩ := registered still
    rw [activated_snoc, none, List.append_nil]
    exact h.latest before

/-- A step of its own takes a lane on. -/
theorem Serves.step (h : w.Serves deeds n l acts) (a : Lane.Action) (none : a.activated = [])
    (known : Lane.Convertible w.folder (activated l.session.language deeds)) :
    w.Serves deeds n (l.step a).1 acts := by
  have follows := h.kept.named.follows a
  have kept : (l.step a).1.Kept (acts ++ a.activated) := by
    refine h.kept.step a ?_
    rw [none, List.append_nil, h.folder]
    exact known.subset h.block.subset
  rw [none, List.append_nil] at kept
  refine ⟨kept, follows.folder.trans h.folder, ?_, ?_⟩ <;> rw [follows.language]
  · exact h.block
  · exact h.latest

/-- The activations of a registered lane go on. -/
theorem Serves.activate (h : w.Serves deeds n l acts)
    (registered : w.registered.find? l.session.language = some n) (launcher : Launcher)
    (path : Path) (text : String)
    (known : Lane.Convertible w.folder (activated l.session.language
      (deeds ++ [.activate launcher l.session.language path text]))) :
    w.Serves (deeds ++ [.activate launcher l.session.language path text]) n
      (l.activate path text).1 (acts ++ [(path, text)]) := by
  have follows : Lane.Follows l (l.activate path text).1 :=
    h.kept.named.follows (.activate path text)
  have more : activated l.session.language
      (deeds ++ [.activate launcher l.session.language path text]) =
        activated l.session.language deeds ++ [(path, text)] := by
    rw [activated_snoc]
    simp [Deed.activated]
  have block : acts ++ [(path, text)] <:+ activated l.session.language
      (deeds ++ [.activate launcher l.session.language path text]) := by
    obtain ⟨earlier, all⟩ := h.latest registered
    refine ⟨earlier, ?_⟩
    rw [more, ← all, List.append_assoc]
  have kept : (l.activate path text).1.Kept (acts ++ [(path, text)]) := by
    refine h.kept.step (.activate path text) ?_
    rw [h.folder]
    exact known.subset block.subset
  refine ⟨kept, follows.folder.trans h.folder, ?_, fun _ => ?_⟩ <;> rw [follows.language]
  · exact block.isInfix
  · exact block

/-! ## Steps -/

/-- Whether every document that deeds activate has a URI. -/
def Convertible (folder : Path) (deeds : List Deed) : Prop :=
  ∀ language, Lane.Convertible folder (activated language deeds)

theorem Convertible.earlier {folder : Path} {past more : List Deed}
    (h : Convertible folder (past ++ more)) : Convertible folder past := by
  intro language
  refine (h language).subset ?_
  rw [activated, activated, List.flatMap_append]
  exact List.subset_append_left _ _

/-- A deed that activates nothing is not seen in the lanes. -/
theorem Tracked.snoc (h : w.Tracked deeds) {d : Deed}
    (none : ∀ language, d.activated language = []) : w.Tracked (deeds ++ [d]) := by
  refine ⟨fun n l hl => ?_, h.registered⟩
  obtain ⟨acts, serves⟩ := h.lanes n l hl
  exact ⟨acts, serves.aside d rfl fun still => ⟨still, none _⟩⟩

/-- Changing one lane changes no other. -/
theorem Tracked.setLane {l' : Lane} {deeds' : List Deed} (h : w.Tracked deeds)
    (hl : w.lanes[n]? = some l) (language : l'.session.language = l.session.language)
    (serves : ∃ acts, w.Serves deeds' n l' acts)
    (others : ∀ m k acts, m ≠ n → w.Serves deeds m k acts → w.Serves deeds' m k acts) :
    (w.setLane n l').Tracked deeds' := by
  have inside : n < w.lanes.length := (List.getElem?_eq_some_iff.mp hl).1
  refine ⟨fun m k hk => ?_, fun name m registered => ?_⟩
  · simp only [Workspace.setLane, List.getElem?_set] at hk
    by_cases same : n = m
    · subst same
      rw [if_pos rfl, if_pos inside] at hk
      obtain rfl := Option.some.inj hk
      obtain ⟨acts, serves⟩ := serves
      exact ⟨acts, serves.kept, serves.folder, serves.block, serves.latest⟩
    · rw [if_neg same] at hk
      obtain ⟨acts, before⟩ := h.lanes m k hk
      have after := others m k acts (Ne.symm same) before
      exact ⟨acts, after.kept, after.folder, after.block, after.latest⟩
  · obtain ⟨k, hk, is⟩ := h.registered name m registered
    simp only [Workspace.setLane, List.getElem?_set]
    by_cases same : n = m
    · subst same
      obtain rfl : l = k := Option.some.inj (hl.symm.trans hk)
      exact ⟨l', by rw [if_pos rfl, if_pos inside], language.trans is⟩
    · exact ⟨k, by rw [if_neg same, hk], is⟩

/-- A step of one lane keeps all of them. -/
theorem Tracked.stepLane (h : w.Tracked deeds) (known : Convertible w.folder deeds) (n : Nat)
    {a : Lane.Action} (none : a.activated = []) : (w.stepLane n a).1.Tracked deeds := by
  unfold Workspace.stepLane
  split
  · exact h
  · rename_i l hl
    obtain ⟨acts, serves⟩ := h.lanes n l hl
    have language := (serves.kept.named.follows a).language
    exact h.setLane hl language ⟨acts, serves.step a none (known _)⟩ fun _ _ _ _ same => same

theorem Tracked.activateIn (h : w.Tracked deeds) {launcher : Launcher} {language : String}
    {path : Path} {text : String}
    (known : Convertible w.folder (deeds ++ [.activate launcher language path text]))
    (registered : w.registered.find? language = some n) :
    (w.activateIn n path text).1.1.Tracked
      (deeds ++ [.activate launcher language path text]) := by
  obtain ⟨l, hl, rfl⟩ := h.registered language n registered
  obtain ⟨acts, serves⟩ := h.lanes n l hl
  have is : (w.activateIn n path text).1.1 = w.setLane n (l.activate path text).1 := by
    unfold Workspace.activateIn
    rw [hl]
  rw [is]
  have follows : Lane.Follows l (l.activate path text).1 :=
    serves.kept.named.follows (.activate path text)
  refine h.setLane hl follows.language
    ⟨_, serves.activate registered launcher path text (known _)⟩ fun m k acts other before => ?_
  refine before.aside _ rfl fun still => ⟨still, ?_⟩
  -- Another lane of the same language is not registered, so it has no part in this.
  have different : l.session.language ≠ k.session.language := by
    intro same
    rw [← same, registered] at still
    exact other (Option.some.inj still).symm
  exact if_neg different

theorem Tracked.openLane (h : w.Tracked deeds) (language : String) (server : Server) :
    (w.openLane language server).Tracked deeds := by
  refine ⟨fun n l hl => ?_, fun name n registered => ?_⟩
  · simp only [Workspace.openLane] at hl
    by_cases old : n < w.lanes.length
    · rw [List.getElem?_append_left old] at hl
      obtain ⟨acts, serves⟩ := h.lanes n l hl
      refine ⟨acts, serves.kept, serves.folder, serves.block, fun still => serves.latest ?_⟩
      by_cases same : l.session.language = language
      · simp only [Workspace.openLane, same, Entries.find?_put_same, Option.some.injEq] at still
        omega
      · simp only [Workspace.openLane, Entries.find?_put_ne same] at still
        exact still
    · -- Nothing was activated in the new lane, and nothing ends every list.
      rw [List.getElem?_append_right (by omega)] at hl
      have new : l = .start (Session.launch language server.limit server.process w.clock)
          w.greeting w.folder := by
        cases place : n - w.lanes.length with
        | zero => simpa [place] using hl.symm
        | succ k => simp [place] at hl
      subst new
      exact ⟨[], Lane.kept_start _ _ _ _ _ _, rfl, List.nil_infix, fun _ => List.nil_suffix⟩
  · simp only [Workspace.openLane] at registered ⊢
    by_cases same : name = language
    · subst same
      rw [Entries.find?_put_same] at registered
      obtain rfl := Option.some.inj registered
      exact ⟨_, List.getElem?_concat_length, rfl⟩
    · rw [Entries.find?_put_ne same] at registered
      obtain ⟨l, hl, is⟩ := h.registered name n registered
      have inside : n < w.lanes.length := (List.getElem?_eq_some_iff.mp hl).1
      exact ⟨l, (List.getElem?_append_left inside).trans hl, is⟩

/-- A document becomes the active one of its language. -/
theorem Tracked.activate (h : w.Tracked deeds) {launcher : Launcher} {language : String}
    {path : Path} {text : String}
    (known : Convertible w.folder (deeds ++ [.activate launcher language path text])) :
    (w.activate launcher language path text).1.1.Tracked
      (deeds ++ [.activate launcher language path text]) := by
  unfold Workspace.activate
  split
  · rename_i n registered
    exact h.activateIn known registered
  · rename_i absent
    split
    · refine ⟨fun n l hl => ?_, h.registered⟩
      obtain ⟨acts, serves⟩ := h.lanes n l hl
      refine ⟨acts, serves.aside _ rfl fun still => ⟨still, ?_⟩⟩
      have different : language ≠ l.session.language := by
        rintro rfl
        rw [absent] at still
        cases still
      exact if_neg different
    · rename_i server _
      exact (h.openLane language server).activateIn known
        (Entries.find?_put_same language w.lanes.length w.registered)

/-- A departure activates nothing, and it releases no lane before the end of its session. -/
theorem act_of_errand {grace : Nat} {a : Lane.Action} (h : errand l grace = .act a) :
    a.activated = [] ∧ a ≠ .release := by
  unfold errand at h
  split at h
  · cases h
    exact ⟨rfl, by simp⟩
  · split at h
    · split at h <;> cases h
      exact ⟨rfl, by simp⟩
    · cases ended : l.farewellResult? <;> simp [ended] at h

theorem farewell_of_errand {grace : Nat} {result : Except ClientError Json}
    (h : errand l grace = .pass result) : l.farewellResult? = some result := by
  unfold errand at h
  split at h
  · cases h
  · split at h
    · split at h <;> cases h
    · cases ended : l.farewellResult? <;> simp [ended] at h ⊢
      exact h

theorem Tracked.depart (h : w.Tracked deeds) (known : Convertible w.folder deeds) :
    w.depart.1.Tracked deeds := by
  have on : ∀ leaving, ({ w with leaving := leaving } : Workspace).Tracked deeds := by
    refine fun leaving => ⟨fun n l hl => ?_, h.registered⟩
    obtain ⟨acts, serves⟩ := h.lanes n l hl
    exact ⟨acts, serves.kept, serves.folder, serves.block, serves.latest⟩
  unfold Workspace.depart
  split
  · exact h
  · exact on none
  · rename_i grace number rest _
    split
    · exact on _
    · rename_i l _
      split
      · exact h
      · rename_i errand
        exact h.stepLane known number (act_of_errand errand).1
      · have left := on (some ⟨grace, rest⟩)
        exact left.stepLane (a := .release) known number rfl

theorem Tracked.leave (h : w.Tracked deeds) (grace : Nat) : (w.leave grace).Tracked deeds := by
  unfold Workspace.leave
  split
  · exact h
  · refine ⟨fun n l hl => ?_, fun language n registered => ?_⟩
    · obtain ⟨acts, serves⟩ := h.lanes n l hl
      refine ⟨acts, serves.kept, serves.folder, serves.block, fun still => ?_⟩
      cases still
    · cases registered

theorem Tracked.advance (h : w.Tracked deeds) (known : Convertible w.folder deeds)
    (milliseconds : Nat) : (w.advance milliseconds).Tracked deeds := by
  refine ⟨fun n l hl => ?_, fun language n registered => ?_⟩
  · rw [Workspace.advance, List.getElem?_map] at hl
    obtain ⟨k, hk, rfl⟩ := Option.map_eq_some_iff.mp hl
    obtain ⟨acts, serves⟩ := h.lanes n k hk
    have after := serves.step (.session (.advance milliseconds)) rfl (known _)
    exact ⟨acts, after.kept, after.folder, after.block, after.latest⟩
  · obtain ⟨l, hl, is⟩ := h.registered language n registered
    refine ⟨(l.step (.session (.advance milliseconds))).1, ?_, is⟩
    rw [Workspace.advance, List.getElem?_map, hl, Option.map_some]

/-- Every deed keeps track of the lanes. -/
theorem Tracked.undergo (h : w.Tracked deeds) (d : Deed)
    (known : Convertible w.folder (deeds ++ [d])) :
    (w.undergo d).Tracked (deeds ++ [d]) := by
  have earlier := known.earlier
  cases d with
  | activate launcher language path text => exact h.activate known
  | leave grace => exact (h.leave grace).snoc fun _ => rfl
  | depart => exact (h.depart earlier).snoc fun _ => rfl
  | advance milliseconds => exact (h.advance earlier milliseconds).snoc fun _ => rfl
  | session n a => exact (h.stepLane earlier n rfl).snoc fun _ => rfl
  | consume n => exact (h.stepLane earlier n rfl).snoc fun _ => rfl

/-! ## Runs -/

/-- Where a workspace is and what it tells its servers. -/
def origin (w : Workspace) : Path × InitializeParams := (w.folder, w.greeting)

theorem origin_activateIn (w : Workspace) (n : Nat) (path : Path) (text : String) :
    (w.activateIn n path text).1.1.origin = w.origin := by
  unfold Workspace.activateIn
  split <;> rfl

theorem origin_activate (launcher : Launcher) (w : Workspace) (language : String) (path : Path)
    (text : String) : (w.activate launcher language path text).1.1.origin = w.origin := by
  unfold Workspace.activate
  split
  · exact origin_activateIn w _ path text
  · split
    · rfl
    · exact origin_activateIn _ _ path text

theorem origin_stepLane (w : Workspace) (n : Nat) (a : Lane.Action) :
    (w.stepLane n a).1.origin = w.origin := by
  unfold Workspace.stepLane
  split <;> rfl

theorem origin_depart (w : Workspace) : w.depart.1.origin = w.origin := by
  unfold Workspace.depart
  split
  · rfl
  · rfl
  · split
    · rfl
    · split
      · rfl
      · exact origin_stepLane w _ _
      · exact origin_stepLane _ _ _

/-- Neither the folder from which paths are seen nor the greeting changes. -/
theorem origin_undergo (w : Workspace) (d : Deed) : (w.undergo d).origin = w.origin := by
  cases d with
  | activate launcher language path text => exact origin_activate launcher w language path text
  | leave grace =>
    simp only [undergo, step, Workspace.leave]
    split <;> rfl
  | depart => exact origin_depart w
  | advance milliseconds => rfl
  | session n a => exact origin_stepLane w n _
  | consume n => exact origin_stepLane w n _

theorem folder_undergo (w : Workspace) (d : Deed) : (w.undergo d).folder = w.folder :=
  congrArg Prod.fst (origin_undergo w d)

theorem folder_through (w : Workspace) (deeds : List Deed) :
    (w.through deeds).folder = w.folder := by
  induction deeds generalizing w with
  | nil => rfl
  | cons d deeds ih => exact (ih (w.undergo d)).trans (folder_undergo w d)

/-- The lanes are kept track of along every run. -/
theorem Tracked.through {past : List Deed} (h : w.Tracked past)
    (known : Convertible w.folder (past ++ deeds)) :
    (w.through deeds).Tracked (past ++ deeds) := by
  induction deeds generalizing w past with
  | nil =>
    rw [List.append_nil]
    exact h
  | cons d deeds ih =>
    rw [List.append_cons] at known ⊢
    refine ih (h.undergo d known.earlier) ?_
    rw [folder_undergo]
    exact known

theorem tracked_create (processId : Nat) (folder : Path) (root : Option String) :
    ({ create processId folder with rootUri := root } : Workspace).Tracked [] := by
  refine ⟨fun n l hl => ?_, fun language n registered => ?_⟩
  · simp [create] at hl
  · cases registered

/-- The messages that were queued for a server of a workspace are, in every run, a prefix of
the request of the handshake and the order to exit, or the server has completed the
handshake and they are a prefix of the script for documents of its language, the first ones
of some that were activated one after the other, with the two messages of the end; after a
handshake that has failed the former holds. -/
theorem sent_in_order (processId : Nat) (folder : Path) (root : Option String)
    (deeds : List Deed)
    (known : ∀ launcher language path text, .activate launcher language path text ∈ deeds →
      ∃ uri, Uri.ofPathIn folder path = .ok uri) :
    ∀ l ∈ (({ create processId folder with rootUri := root } : Workspace).through deeds).lanes,
      (∃ acts, acts <:+: activated l.session.language deeds ∧ l.InOrder acts) ∧
        (l.session.Rejected → l.session.sent <+: [.hello l.greeting, .leave]) := by
  intro l member
  have converts : Convertible folder ([] ++ deeds) := by
    rintro language ⟨path, text⟩ made
    obtain ⟨d, hd, one⟩ := List.mem_flatMap.mp made
    cases d with
    | activate launcher name p t =>
      simp only [Deed.activated] at one
      split at one
      · obtain ⟨rfl, rfl⟩ : path = p ∧ text = t := by simpa using one
        exact known launcher name path text hd
      · cases one
    | leave | depart | advance | session | consume => cases one
  have tracked := (tracked_create processId folder root).through converts
  obtain ⟨n, hl⟩ := List.mem_iff_getElem?.mp member
  obtain ⟨acts, serves⟩ := tracked.lanes n l hl
  exact ⟨⟨acts, serves.block, serves.kept.order⟩, serves.kept.rejected⟩

/-- A run in which a server completes the handshake and is told of one document. -/
def oneDocument : List Deed :=
  [.activate (fun _ => .ok ⟨1000, none⟩) "rust" (.ofString "/a.rs") "fn",
    .consume 0, .session 0 (.resume 0), .session 0 .serve, .session 0 (.resume 0),
    .consume 0, .session 0 (.resume 1), .session 0 .serve, .session 0 (.resume 1),
    .session 0 (.serverWrites (Message.encode (.response 1 (.ok (.obj []))))),
    .session 0 .deliver, .session 0 (.resume 1),
    .consume 0, .session 0 (.resume 2), .session 0 .serve, .session 0 (.resume 2),
    .consume 0, .consume 0, .session 0 (.resume 3), .session 0 .serve]

theorem sent_in_order_one_document :
    ∃ l, (({ create 7 (.ofString "/") with rootUri := none } : Workspace).through
        oneDocument).lanes = [l] ∧
      l.session.sent.map Message.method? =
        [some "initialize", some "initialized", some "textDocument/didOpen"] ∧
      (∃ acts, acts <:+: activated l.session.language oneDocument ∧ l.InOrder acts) ∧
        (l.session.Rejected → l.session.sent <+: [.hello l.greeting, .leave]) := by
  have known : ∀ launcher language path text,
      .activate launcher language path text ∈ oneDocument →
        ∃ uri, Uri.ofPathIn (.ofString "/") path = .ok uri := by
    intro launcher language path text member
    obtain ⟨-, -, rfl, -⟩ : _ ∧ language = "rust" ∧ path = .ofString "/a.rs" ∧ text = "fn" := by
      simpa [oneDocument] using member
    exact ⟨"file:///a.rs", by decide +kernel⟩
  have methods : ((({ create 7 (.ofString "/") with rootUri := none } : Workspace).through
      oneDocument).lanes.map fun l => l.session.sent.map Message.method?) =
        [[some "initialize", some "initialized", some "textDocument/didOpen"]] := by
    decide +kernel
  obtain ⟨l, lanes, said⟩ := List.map_eq_singleton_iff.mp methods
  exact ⟨l, lanes, said, sent_in_order 7 _ none oneDocument known l (by simp [lanes])⟩

end LanguageClient.Workspace
