import LanguageClient.Manager
import LanguageClient.Proofs.Workspace.Departure

/-!
# What a manager does with its commands

A manager carries out the commands that were put into its queue, one after the other, up to
the first order to shut down, and tells about each of them what became of it (`Accounts`).
It ends only when every session of its workspace is shut down.
-/

set_option autoImplicit false

namespace LanguageClient.Manager

/-! ## Deeds -/

/-- What can happen to a manager: a command comes, or none can come any more, and the
manager, a departure, the sessions and the couriers go on, while time passes. -/
inductive Deed where
  | send (c : Command)
  | close
  | serve
  | depart
  | advance (milliseconds : Nat)
  | session (number : Nat) (a : Session.Action)
  | consume (number : Nat)

/-- The step that a deed is. -/
def Deed.action : Deed → Action
  | .send c => .send c
  | .close => .close
  | .serve => .serve
  | .depart => .workspace .depart
  | .advance milliseconds => .workspace (.advance milliseconds)
  | .session number a => .workspace (.lane number (.session a))
  | .consume number => .workspace (.lane number .consume)

/-- A manager after a deed, with what the launcher of servers then does. -/
def undergo (m : Manager) (d : Launcher × Deed) : Manager := (m.step d.1 d.2.action).1

/-- A manager after some deeds. -/
def through (m : Manager) (deeds : List (Launcher × Deed)) : Manager := deeds.foldl undergo m

/-- What a manager tells during some deeds. -/
def told (m : Manager) : List (Launcher × Deed) → List Event
  | [] => []
  | d :: rest => (m.step d.1 d.2.action).2 ++ told (m.undergo d) rest

/-- The command that a deed puts into the queue. -/
def took (m : Manager) : Deed → List Command
  | .send c => if (m.send c).2 then [c] else []
  | _ => []

/-- The commands that some deeds put into the queue. -/
def taken (m : Manager) : List (Launcher × Deed) → List Command
  | [] => []
  | d :: rest => m.took d.2 ++ taken (m.undergo d) rest

/-! ## What is carried out -/

/-- The activation that a deed of the workspace is, with its outcome. -/
def performs (w : Workspace) : Workspace.Deed → List (Command × Lane.Queued)
  | .activate launcher language path text =>
    [(.activate language path text, (w.activate launcher language path text).2)]
  | _ => []

/-- The activations that are carried out in a workspace, with their outcomes. -/
def performed (w : Workspace) : List Workspace.Deed → List (Command × Lane.Queued)
  | [] => []
  | d :: rest => performs w d ++ performed (w.undergo d) rest

/-- How long each server may take to exit when a deed leaves the workspace. -/
def grace? : Workspace.Deed → Option Nat
  | .leave grace => some grace
  | _ => none

/-- What is reported about an activation. -/
inductive Report where
  /-- A switch to the document was queued with this version. -/
  | activated (path : Path) (version : Int)
  | failed (text : String)
  deriving DecidableEq

/-- The report that an event is. -/
def Event.report? : Event → Option Report
  | .activated path version => some (.activated path version)
  | .failed path e => some (.failed (failureText path e))
  | .shutDown | .inWorkspace _ => none

/-- The report that is due: none about a document that is the active one already. -/
def report? : Command × Lane.Queued → Option Report
  | (.activate _ path _, .ok (some item)) => some (.activated path item.version)
  | (.activate _ path _, .error e) => some (.failed (path.display ++ ": " ++ e.message))
  | (.activate .., .ok none) | (.shutdown _, _) => none

variable {m m' : Manager} {launcher : Launcher} {took taken : List Command}
  {made did : List Workspace.Deed} {seen more : List Event} {fresh w : Workspace}

theorem performed_append (w : Workspace) (ds es : List Workspace.Deed) :
    performed w (ds ++ es) = performed w ds ++ performed (w.through ds) es := by
  induction ds generalizing w with
  | nil => rfl
  | cons d ds ih =>
    rw [List.cons_append, performed, performed, ih, List.append_assoc]
    rfl

/-- An order to shut down is no activation. -/
theorem shutdown_not_mem_performed (w : Workspace) (ds : List Workspace.Deed) (grace : Nat) :
    .shutdown grace ∉ (performed w ds).map Prod.fst := by
  induction ds generalizing w with
  | nil => simp [performed]
  | cons d ds ih =>
    rw [performed, List.map_append, List.mem_append, not_or]
    refine ⟨?_, ih _⟩
    cases d <;> simp [performs]

/-- What is told about an activation is the report that is due. -/
theorem report_tell (language : String) (path : Path) (text : String) (queued : Lane.Queued) :
    (tell path queued).filterMap Event.report? =
      [(Command.activate language path text, queued)].filterMap report? := by
  match queued with
  | .ok (some item) => rfl
  | .ok none => rfl
  | .error e => rfl

theorem report_inWorkspace (seen : List Workspace.Event) :
    (seen.map Event.inWorkspace).filterMap Event.report? = [] := by
  rw [List.filterMap_map]
  exact List.filterMap_eq_nil_iff.mpr fun _ _ => rfl

theorem shutDown_not_mem_inWorkspace (seen : List Workspace.Event) :
    .shutDown ∉ seen.map Event.inWorkspace := by simp

theorem shutDown_not_mem_tell (path : Path) (queued : Lane.Queued) :
    .shutDown ∉ tell path queued := by
  match queued with
  | .ok (some item) => simp [tell]
  | .ok none => simp [tell]
  | .error e => simp [tell]

/-! ## Steps -/

/-- What a deed can make of a manager, with the commands that it takes, what it makes happen
in the workspace, and what it tells. -/
inductive Stepped (m : Manager) (launcher : Launcher) (m' : Manager) :
    List Command → List Workspace.Deed → List Event → Prop
  | rests (now : m' = m) : Stepped m launcher m' [] [] []
  | takes {c : Command} (open_ : m.accepting = true) (on : m.stage ≠ .ended)
      (now : m' = { m with queue := m.queue ++ [c] }) : Stepped m launcher m' [c] [] []
  | closes (now : m' = { m with accepting := false }) : Stepped m launcher m' [] [] []
  | own {d : Workspace.Deed} {seen : List Workspace.Event} (quiet : d.Quiet) (still : ¬ d.Leaves)
      (now : m' = { m with workspace := m.workspace.undergo d }) :
      Stepped m launcher m' [] [d] (seen.map .inWorkspace)
  | activates {language : String} {path : Path} {text : String} {rest : List Command}
      {seen : List Workspace.Event} (running : m.stage = .running)
      (next : m.queue = .activate language path text :: rest)
      (now : m' = { m with
        queue := rest
        workspace := (m.workspace.activate launcher language path text).1.1 }) :
      Stepped m launcher m' [] [.activate launcher language path text]
        (seen.map .inWorkspace ++ tell path (m.workspace.activate launcher language path text).2)
  | leaves {grace : Nat} {rest : List Command} (running : m.stage = .running)
      (next : m.queue = .shutdown grace :: rest)
      (now : m' = { m with
        queue := rest
        workspace := m.workspace.leave grace
        stage := .leaving true }) : Stepped m launcher m' [] [.leave grace] []
  | runsOut (running : m.stage = .running) (empty : m.queue = []) (shut : m.accepting = false)
      (now : m' = { m with workspace := m.workspace.leave 0, stage := .leaving false }) :
      Stepped m launcher m' [] [.leave 0] []
  | ends {asked : Bool} (leaving : m.stage = .leaving asked) (left : m.workspace.leaving = none)
      (now : m' = { m with stage := .ended }) :
      Stepped m launcher m' [] [] (if asked then [.shutDown] else [])

theorem stepped_serve (m : Manager) (launcher : Launcher) :
    ∃ made, Stepped m launcher (m.serve launcher).1 [] made (m.serve launcher).2 := by
  unfold serve
  split
  · rename_i running
    split
    · rename_i next
      exact ⟨_, .activates running next rfl⟩
    · rename_i next
      exact ⟨_, .leaves running next rfl⟩
    · rename_i empty
      split
      · exact ⟨_, .rests rfl⟩
      · rename_i shut
        exact ⟨_, .runsOut running empty (Bool.eq_false_iff.mpr shut) rfl⟩
  · rename_i leaving
    split
    · rename_i left
      exact ⟨_, .ends leaving (Option.isNone_iff_eq_none.mp left) rfl⟩
    · exact ⟨_, .rests rfl⟩
  · exact ⟨_, .rests rfl⟩

/-- What a deed makes of a manager is one of these. -/
theorem stepped (m : Manager) (d : Launcher × Deed) :
    ∃ made, Stepped m d.1 (m.undergo d) (m.took d.2) made (m.step d.1 d.2.action).2 := by
  obtain ⟨launcher, d⟩ := d
  have still : ∀ {e : Workspace.Deed}, (∀ grace, e ≠ .leave grace) → ¬ e.Leaves := by
    rintro e other ⟨grace, rfl⟩
    exact other grace rfl
  cases d with
  | send c =>
    simp only [undergo, Deed.action, step, Manager.took, send]
    split
    · rename_i open_
      rw [Bool.and_eq_true, bne_iff_ne] at open_
      exact ⟨_, .takes open_.1 open_.2 rfl⟩
    · exact ⟨_, .rests rfl⟩
  | close => exact ⟨_, .closes rfl⟩
  | serve => exact stepped_serve m launcher
  | depart => exact ⟨_, .own (d := .depart) trivial (still (by simp)) rfl⟩
  | advance milliseconds =>
    exact ⟨_, .own (d := .advance milliseconds) trivial (still (by simp)) rfl⟩
  | session number a => exact ⟨_, .own (d := .session number a) trivial (still (by simp)) rfl⟩
  | consume number => exact ⟨_, .own (d := .consume number) trivial (still (by simp)) rfl⟩

/-- A manager that runs takes the next command, if there is one. -/
theorem queue_serve (running : m.stage = .running) (launcher : Launcher) :
    (m.undergo (launcher, .serve)).queue = m.queue.tail := by
  simp only [undergo, Deed.action, step, serve, running]
  cases queue : m.queue with
  | nil =>
    dsimp only
    split
    · exact queue
    · exact queue
  | cons c rest => cases c <;> rfl

/-! ## The workspace -/

/-- How a manager stands to its workspace: it leaves it once, and nothing is activated after
that. -/
structure Departs (m : Manager) : Prop where
  stays : m.stage = .running → m.workspace.leaving = none
  unregistered : m.stage ≠ .running → m.workspace.registered = []
  left : m.stage = .ended → m.workspace.leaving = none

theorem Departs.leave (h : m.Departs) (running : m.stage = .running) (grace : Nat)
    {queue : List Command} {asked : Bool}
    (now : m' = { m with
      queue := queue
      workspace := m.workspace.leave grace
      stage := .leaving asked }) : m'.Departs := by
  subst now
  refine ⟨fun running => absurd running (by simp), fun _ => ?_,
    fun ended => absurd ended (by simp)⟩
  simp only [Workspace.leave, h.stays running]

theorem Departs.step (h : m.Departs) (stepped : Stepped m launcher m' took made seen) :
    m'.Departs := by
  cases stepped with
  | rests now => exact now ▸ h
  | takes _ _ now | closes now =>
    subst now
    exact ⟨h.stays, h.unregistered, h.left⟩
  | own quiet still now =>
    subst now
    refine ⟨fun running => ?_, fun gone => ?_, fun ended => ?_⟩
    · exact Workspace.leaving_undergo (h.stays running) quiet still
    · exact (Workspace.registered_undergo quiet still).trans (h.unregistered gone)
    · exact Workspace.leaving_undergo (h.left ended) quiet still
  | activates running _ now =>
    subst now
    refine ⟨fun _ => ?_, fun gone => absurd running gone, fun ended => ?_⟩
    · exact (Workspace.leaving_activate _ _ _ _ _).trans (h.stays running)
    · cases running.symm.trans ended
  | leaves running _ now => exact h.leave running _ now
  | runsOut running _ _ now => exact h.leave running 0 now
  | ends leaving left now =>
    subst now
    refine ⟨fun running => absurd running (by simp), fun _ => ?_, fun _ => left⟩
    exact h.unregistered (by simp [leaving])

/-! ## The commands -/

/-- How a manager stands to the commands that were taken, when those at the front were
carried out: it has to carry out the rest, or it was told to shut down and leaves what comes
after that alone, or none can come any more. -/
inductive Stands (m : Manager) (orders taken : List Command) (graces : List Nat)
    (signals : Nat) : Prop
  | running (stage : m.stage = .running) (taken : taken = orders ++ m.queue)
      (graces : graces = []) (signals : signals = 0)
  | asked {grace : Nat} {ignored : List Command}
      (stage : m.stage = .leaving true ∧ signals = 0 ∨ m.stage = .ended ∧ signals = 1)
      (taken : taken = orders ++ .shutdown grace :: ignored) (graces : graces = [grace])
  | ranOut (stage : m.stage = .leaving false ∨ m.stage = .ended) (signals : signals = 0)
      (shut : m.accepting = false) (taken : taken = orders) (graces : graces = [0])

/-- What a manager owes to the commands that were taken: those at the front are what was
carried out in the workspace, and what was told about them is what is due. -/
structure Accounts (fresh : Workspace) (m : Manager) (taken : List Command)
    (did : List Workspace.Deed) (seen : List Event) : Prop where
  workspace : m.workspace = fresh.through did
  stands : m.Stands ((performed fresh did).map Prod.fst) taken (did.filterMap grace?)
    (seen.count .shutDown)
  reports : seen.filterMap Event.report? = (performed fresh did).filterMap report?

theorem accounts_start (fresh : Workspace) : Accounts fresh (start fresh) [] [] [] :=
  ⟨rfl, .running rfl rfl rfl rfl, rfl⟩

/-- What a deed makes happen in the workspace is all that happens there. -/
theorem Stepped.workspace (h : Stepped m launcher m' took made seen) :
    m'.workspace = m.workspace.through made := by
  cases h with
  | rests now | takes _ _ now | closes now | ends _ _ now | own _ _ now | activates _ _ now
  | leaves _ _ now | runsOut _ _ _ now =>
    subst now
    rfl

/-- What a deed tells is what is due about the activation that it carries out. -/
theorem Stepped.reports (h : Stepped m launcher m' took made seen) :
    seen.filterMap Event.report? = (performed m.workspace made).filterMap report? := by
  cases h with
  | rests | takes | closes | leaves | runsOut => rfl
  | @own d seen quiet =>
    rw [report_inWorkspace]
    cases d with
    | activate => cases quiet
    | leave | depart | advance | session | consume => rfl
  | @activates language path text rest seen =>
    rw [List.filterMap_append, report_inWorkspace, List.nil_append, report_tell language path text]
    rfl
  | @ends asked => cases asked <;> rfl

section Stands

variable {orders : List Command} {graces : List Nat} {signals : Nat}

/-- What touches neither the queue nor the stage changes nothing. -/
theorem Stands.aside (h : m.Stands orders taken graces signals) (queue : m'.queue = m.queue)
    (stage : m'.stage = m.stage) (shut : m.accepting = false → m'.accepting = false) :
    m'.Stands orders taken graces signals := by
  cases h with
  | running running all graces signals =>
    exact .running (stage.trans running) (queue ▸ all) graces signals
  | asked at_ all graces => exact .asked (stage ▸ at_) all graces
  | ranOut at_ signals none all graces =>
    exact .ranOut (stage ▸ at_) signals (shut none) all graces

theorem Stands.take (h : m.Stands orders taken graces signals) (open_ : m.accepting = true)
    (c : Command) :
    ({ m with queue := m.queue ++ [c] } : Manager).Stands orders (taken ++ [c]) graces signals := by
  cases h with
  | running running all graces signals =>
    refine .running running ?_ graces signals
    rw [all, List.append_assoc]
  | @asked grace ignored at_ all graces =>
    have more : taken ++ [c] = orders ++ .shutdown grace :: (ignored ++ [c]) := by
      rw [all, List.append_assoc, List.cons_append]
    exact .asked at_ more graces
  | ranOut _ _ shut =>
    rw [open_] at shut
    cases shut

/-- A manager that runs has to carry out all that it has not carried out. -/
theorem Stands.of_running (h : m.Stands orders taken graces signals)
    (running : m.stage = .running) :
    taken = orders ++ m.queue ∧ graces = [] ∧ signals = 0 := by
  cases h with
  | running _ all graces signals => exact ⟨all, graces, signals⟩
  | asked at_ => simp [running] at at_
  | ranOut at_ => simp [running] at at_

theorem Stands.end (h : m.Stands orders taken graces signals) {asked : Bool}
    (leaving : m.stage = .leaving asked) :
    ({ m with stage := .ended } : Manager).Stands orders taken graces
      (signals + if asked then 1 else 0) := by
  cases h with
  | running running => cases running.symm.trans leaving
  | asked at_ all graces =>
    rcases at_ with ⟨told, none⟩ | ⟨ended, -⟩
    · obtain rfl : true = asked := Stage.leaving.inj (told.symm.trans leaving)
      exact .asked (.inr ⟨rfl, by simp [none]⟩) all graces
    · cases ended.symm.trans leaving
  | ranOut at_ none shut all graces =>
    rcases at_ with untold | ended
    · obtain rfl : false = asked := Stage.leaving.inj (untold.symm.trans leaving)
      exact .ranOut (.inr rfl) (by simp [none]) shut all graces
    · cases ended.symm.trans leaving

theorem Stands.step (h : m.Stands orders taken graces signals)
    (stepped : Stepped m launcher m' took made seen) :
    m'.Stands (orders ++ (performed m.workspace made).map Prod.fst) (taken ++ took)
      (graces ++ made.filterMap grace?) (signals + seen.count .shutDown) := by
  cases stepped with
  | rests now =>
    subst now
    simpa [performed] using h
  | @takes c open_ _ now =>
    subst now
    simpa [performed] using h.take open_ c
  | closes now =>
    have aside : ({ m with accepting := false } : Manager).Stands orders taken graces signals :=
      h.aside rfl rfl fun _ => rfl
    subst now
    simpa [performed] using aside
  | @own d seen quiet still now =>
    have nothing : performed m.workspace [d] = [] ∧ grace? d = none := by
      cases d with
      | activate => cases quiet
      | leave grace => exact absurd ⟨grace, rfl⟩ still
      | depart | advance | session | consume => exact ⟨rfl, rfl⟩
    have aside : ({ m with workspace := m.workspace.undergo d } : Manager).Stands orders taken
      graces signals := h.aside rfl rfl id
    subst now
    rw [nothing.1, List.filterMap_cons_none nothing.2,
      List.count_eq_zero.mpr (shutDown_not_mem_inWorkspace seen)]
    simpa using aside
  | @activates language path text rest seen running next now =>
    obtain ⟨all, graces, signals⟩ := h.of_running running
    have silent : (seen.map Event.inWorkspace ++
        tell path (m.workspace.activate launcher language path text).2).count .shutDown = 0 := by
      rw [List.count_append, List.count_eq_zero.mpr (shutDown_not_mem_inWorkspace seen),
        List.count_eq_zero.mpr (shutDown_not_mem_tell path _)]
    subst now
    refine .running running ?_ (by simp [graces, grace?]) (by rw [silent, signals])
    rw [all, next]
    simp [performed, performs]
  | @leaves grace rest running next now =>
    obtain ⟨all, graces, signals⟩ := h.of_running running
    have order : taken ++ [] = orders ++
        (performed m.workspace [.leave grace]).map Prod.fst ++ .shutdown grace :: rest := by
      rw [all, next]
      simp [performed, performs]
    subst now
    exact .asked (.inl ⟨rfl, by simp [signals]⟩) order (by simp [graces, grace?])
  | runsOut running empty shut now =>
    obtain ⟨all, graces, signals⟩ := h.of_running running
    subst now
    refine .ranOut (.inl rfl) (by simp [signals]) shut ?_ (by simp [graces, grace?])
    rw [all, empty]
    simp [performed, performs]
  | @ends asked leaving _ now =>
    subst now
    have ended := h.end leaving
    cases asked <;> simpa [performed] using ended

end Stands

theorem Accounts.step (h : Accounts fresh m taken did seen)
    (stepped : Stepped m launcher m' took made more) :
    Accounts fresh m' (taken ++ took) (did ++ made) (seen ++ more) := by
  have carried : performed fresh (did ++ made) =
      performed fresh did ++ performed m.workspace made := by
    rw [performed_append, ← h.workspace]
  refine ⟨?_, ?_, ?_⟩
  · rw [stepped.workspace, h.workspace]
    exact List.foldl_append.symm
  · rw [carried, List.map_append, List.filterMap_append, List.count_append]
    exact h.stands.step stepped
  · rw [carried, List.filterMap_append, List.filterMap_append, h.reports, stepped.reports]

theorem Accounts.through (h : Accounts fresh m taken did seen)
    (deeds : List (Launcher × Deed)) :
    ∃ made, Accounts fresh (m.through deeds) (taken ++ m.taken deeds) (did ++ made)
      (seen ++ m.told deeds) := by
  induction deeds generalizing m taken did seen with
  | nil => exact ⟨[], by simpa [Manager.through, Manager.taken, told] using h⟩
  | cons d deeds ih =>
    obtain ⟨made, stepped⟩ := stepped m d
    obtain ⟨later, accounts⟩ := ih (h.step stepped)
    refine ⟨made ++ later, ?_⟩
    simp only [List.append_assoc] at accounts
    exact accounts

theorem Departs.through (h : m.Departs) (deeds : List (Launcher × Deed)) :
    (m.through deeds).Departs := by
  induction deeds generalizing m with
  | nil => exact h
  | cons d deeds ih =>
    obtain ⟨made, stepped⟩ := stepped m d
    exact ih (h.step stepped)

/-! ## At rest -/

/-- A manager at rest has ended, or waits for commands, or a session waits for something. -/
theorem waits_of_rest (sound : ∀ l ∈ m.workspace.lanes, l.Sound)
    (rest : m.next? = none) :
    m.stage = .ended ∨ m.stage = .running ∧ m.queue = [] ∧ m.accepting = true ∨
      ∃ l ∈ m.workspace.lanes, l.session.Pends := by
  unfold next? at rest
  split at rest
  · cases rest
  rename_i unserved
  cases at_ : m.stage with
  | ended => exact .inl rfl
  | running =>
    simp [canServe, at_] at unserved
    exact .inr (.inl ⟨rfl, unserved⟩)
  | leaving asked =>
    have left : m.workspace.leaving ≠ none := by
      intro left
      simp [canServe, at_, left] at unserved
    have quiet : m.workspace.next? = none := Option.map_eq_none_iff.mp rest
    exact .inr (.inr (Workspace.pends_of_rest sound quiet left))

/-- Every activation that comes before the first order to shut down is carried out, in order.

Whatever the order in which things happen: of the commands that were taken, those at the
front were carried out in the workspace, each of them an activation; what follows waits as
long as the manager runs, and is left alone once it was told to shut down.  The workspace is
left once, with the time that the order gives, or none when commands have run out.  For each
activation one report is told, or none if the document was the active one.  When the manager
ends, every courier has ended and every session has exited, its shutdown having returned
without an error, and only then the end is signalled, once, if it was ordered.

A running manager takes the next command whatever became of the one before.  It comes to rest
only when it has ended, when it waits for commands, or when a session waits for a time to
come or for the exit of a server that was killed. -/
theorem commands_carried_out (processId : Nat) (folder : Path) (root : Option String)
    (deeds : List (Launcher × Deed)) :
    let fresh : Workspace := { Workspace.create processId folder with rootUri := root }
    let m := (start fresh).through deeds
    let taken := (start fresh).taken deeds
    let seen := (start fresh).told deeds
    ∃ did : List Workspace.Deed,
      m.workspace = fresh.through did ∧
      m.Stands ((performed fresh did).map Prod.fst) taken (did.filterMap grace?)
        (seen.count .shutDown) ∧
      (∀ grace, .shutdown grace ∉ (performed fresh did).map Prod.fst) ∧
      seen.filterMap Event.report? = (performed fresh did).filterMap report? ∧
      (m.stage = .ended → ∀ l ∈ m.workspace.lanes, l.courier = .ended ∧
        l.farewellResult? = some (.ok .null) ∧ l.session.phase = .exited) ∧
      (m.stage = .running → ∀ launcher,
        (m.undergo (launcher, .serve)).queue = m.queue.tail) ∧
      (m.next? = none → m.stage = .ended ∨
        m.stage = .running ∧ m.queue = [] ∧ m.accepting = true ∨
        ∃ l ∈ m.workspace.lanes, l.session.Pends) := by
  intro fresh m taken seen
  obtain ⟨did, accounts⟩ := (accounts_start fresh).through deeds
  have departs : m.Departs :=
    Departs.through ⟨fun _ => rfl, fun other => absurd rfl other, fun _ => rfl⟩ deeds
  have workspace : m.workspace = fresh.through did := accounts.workspace
  refine ⟨did, workspace, accounts.stands, shutdown_not_mem_performed fresh did,
    accounts.reports, fun ended => ?_, fun running launcher => ?_, waits_of_rest ?_⟩
  · refine Workspace.passed_of_left ?_ (departs.unregistered (by simp [ended]))
      (departs.left ended)
    rw [workspace]
    refine Workspace.keeps_through
      (P := fun w => ∀ n l, w.lanes[n]? = some l → w.Minds n l)
      (fun _ d minds => Workspace.minds_undergo minds d) (fun n l none => ?_) did
    cases none
  · exact queue_serve running launcher
  · rw [workspace]
    refine Workspace.keeps_through (P := fun w => ∀ l ∈ w.lanes, l.Sound)
      (fun _ d sound => Workspace.sound_undergo sound d) (fun l none => ?_) did
    cases none

/-- A server that does not start does not keep the next command from being carried out, a command
behind the shutdown is left alone, and the end is signalled when the other server has answered
and closed its output. -/
example :
    let launcher : Launcher := fun language =>
      if language = "c" then .ok ⟨1000, none⟩ else .error (.noServer language)
    let call (n : Nat) : List Deed :=
      [.session 0 (.resume n), .session 0 .serve, .session 0 (.resume n)]
    let answer (id : Int) (n : Nat) : List Deed :=
      let response : Message := .response id (.ok (.obj [("capabilities", .null)]))
      [.session 0 (.serverWrites response.encode), .session 0 .deliver, .session 0 (.resume n)]
    let commands : List Deed :=
      [.send (.activate "go" (.ofString "a.go") ""), .send (.activate "c" (.ofString "b.c") ""),
        .send (.shutdown 5), .send (.activate "c" (.ofString "c.c") ""), .serve, .serve, .serve]
    let couriers := .depart :: .consume 0 :: call 0 ++ .consume 0 :: call 1 ++ answer 1 1 ++
      .consume 0 :: call 2 ++ .consume 0 :: .consume 0 :: call 3 ++ [.consume 0, .consume 0]
    let farewell := .depart :: call 4 ++ answer 2 4 ++
      [.session 0 .serve, .session 0 (.resume 4), .session 0 .serverCloses, .session 0 .deliver,
        .session 0 (.resume 4), .depart, .session 0 .serve, .depart, .serve]
    let deeds := (commands ++ couriers ++ farewell).map (launcher, ·)
    let m := start (.create 7 (.ofString "/"))
    (m.through deeds).stage = .ended ∧
      (m.through deeds).workspace.lanes.map (·.session.phase) = [.exited] ∧
      (m.told deeds).filterMap Event.report? =
        [.failed "a.go: no server registered for language: go",
          .activated (.ofString "b.c") 1] ∧
      (m.told deeds).count .shutDown = 1 ∧ (m.told deeds).getLast? = some .shutDown := by
  decide +kernel

end LanguageClient.Manager
