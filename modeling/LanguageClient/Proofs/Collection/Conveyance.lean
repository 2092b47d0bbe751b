import LanguageClient.Collection
import LanguageClient.Proofs.Workspace.Bearing
import Mathlib.Data.List.Basic

/-!
# From the files to the lanes

A collection hands its documents to the manager, who activates them one after the other and
leaves the workspace when there are no more.  `Stepped` says once what a step of all this
can do; whatever the interleaving, what was activated for a language, what waits for the
manager and what is still to be handed to it are always all of its documents (`Conveys`).
-/

set_option autoImplicit false

namespace LanguageClient

/-- The document of a language that a command activates. -/
def Manager.Command.activated (language : String) : Manager.Command → List (Path × String)
  | .activate name path text => if name = language then [(path, text)] else []
  | .shutdown _ => []

namespace Collection

/-! ## Deeds -/

/-- What can happen to a collection: it goes on, and so do the manager, a departure, the
sessions and the couriers, while time passes. -/
inductive Deed where
  | goOn
  | serve
  | depart
  | advance (milliseconds : Nat)
  | session (number : Nat) (a : Session.Action)
  | consume (number : Nat)

/-- The step that a deed is. -/
def Deed.action : Deed → Action
  | .goOn => .goOn
  | .serve => .manager .serve
  | .depart => .manager (.workspace .depart)
  | .advance milliseconds => .manager (.workspace (.advance milliseconds))
  | .session number a => .manager (.workspace (.lane number (.session a)))
  | .consume number => .manager (.workspace (.lane number .consume))

/-- A collection after a deed, with what the launcher of servers then does. -/
def undergo (c : Collection) (d : Launcher × Deed) : Collection := (c.step d.1 d.2.action).1

/-- A collection after some deeds. -/
def through (c : Collection) (deeds : List (Launcher × Deed)) : Collection :=
  deeds.foldl undergo c

/-! ## Steps -/

/-- What a deed can make of a collection. -/
inductive Stepped (c : Collection) (launcher : Launcher) (c' : Collection) : Prop
  | own {d : Workspace.Deed} (quiet : d.Quiet) (still : ¬ d.Leaves)
      (manager : c'.manager = { c.manager with workspace := c.manager.workspace.undergo d })
      (feed : c'.feed = c.feed) (stage : c'.stage = c.stage)
  | rests (manager : c'.manager = c.manager) (feed : c'.feed = c.feed)
      (stage : c'.stage = c.stage)
  | hands {command : Manager.Command} {rest : List Manager.Command} (feeding : c.stage = .feeding)
      (next : c.feed = command :: rest) (manager : c'.manager = (c.manager.send command).1)
      (feed : c'.feed = rest) (stage : c'.stage = .feeding)
  | listens {deadline : Nat} (fed : c.stage = .feeding ∧ c.feed = [] ∨ ∃ t, c.stage = .listening t)
      (manager : c'.manager = c.manager) (feed : c'.feed = c.feed)
      (stage : c'.stage = .listening deadline)
  | asks {deadline grace : Nat} (listening : c.stage = .listening deadline)
      (manager : c'.manager = (c.manager.send (.shutdown grace)).1) (feed : c'.feed = c.feed)
      (stage : c'.stage = .leaving)
  | ends (leaving : c.stage = .leaving) (beyond : c.manager.stage = .ended)
      (manager : c'.manager = c.manager) (feed : c'.feed = c.feed) (stage : c'.stage = .done)
  | activates {language : String} {path : Path} {text : String} {rest : List Manager.Command}
      (running : c.manager.stage = .running)
      (next : c.manager.queue = .activate language path text :: rest)
      (manager : c'.manager = { c.manager with
        queue := rest
        workspace := (c.manager.workspace.activate launcher language path text).1.1 })
      (feed : c'.feed = c.feed) (stage : c'.stage = c.stage)
  | leaves {grace : Nat} {asked : Bool} {rest : List Manager.Command}
      (running : c.manager.stage = .running)
      (next : c.manager.queue = .shutdown grace :: rest ∨
        c.manager.accepting = false ∧ c.manager.queue = [] ∧ rest = [])
      (manager : c'.manager = { c.manager with
        queue := rest
        workspace := c.manager.workspace.leave grace
        stage := .leaving asked })
      (feed : c'.feed = c.feed) (stage : c'.stage = c.stage)
  | shut {asked : Bool} (leaving : c.manager.stage = .leaving asked)
      (left : c.manager.workspace.leaving = none)
      (manager : c'.manager = { c.manager with stage := .ended })
      (feed : c'.feed = c.feed) (stage : c'.stage = c.stage)

variable {c c' : Collection} {launcher : Launcher}

theorem stepped_goOn (c : Collection) (launcher : Launcher) :
    Stepped c launcher (c.goOn?.getD c) := by
  unfold goOn?
  split
  · rename_i feeding
    split
    · rename_i empty
      exact .listens (.inl ⟨feeding, empty⟩) rfl rfl rfl
    · rename_i command rest next
      unfold hand
      split
      · exact .hands feeding next rfl rfl feeding
      · exact .rests rfl rfl rfl
  · rename_i deadline listening
    split
    · rename_i e rest _
      have told : ∀ d : Collection,
      (d.takeIn e).manager = d.manager ∧ (d.takeIn e).feed = d.feed := by
        intro d
        unfold takeIn
        split <;> exact ⟨rfl, rfl⟩
      obtain ⟨manager, feed⟩ := told { c with inbox := rest }
      exact .listens (.inr ⟨deadline, listening⟩) manager feed rfl
    · split
      · unfold hand
        split
        · exact .asks listening rfl rfl rfl
        · exact .rests rfl rfl rfl
      · exact .rests rfl rfl rfl
  · rename_i leaving
    split
    · rename_i beyond
      exact .ends leaving beyond rfl rfl rfl
    · exact .rests rfl rfl rfl
  · exact .rests rfl rfl rfl

theorem stepped_serve (c : Collection) (launcher : Launcher) :
    Stepped c launcher (c.stepManager launcher .serve).1 := by
  unfold stepManager
  simp only [Manager.step, Manager.serve]
  split
  · rename_i running
    split
    · rename_i next
      exact .activates running next rfl rfl rfl
    · rename_i next
      exact .leaves running (.inl next) rfl rfl rfl
    · rename_i empty
      split
      · exact .rests rfl rfl rfl
      · rename_i closed
        have manager : c.manager.leave 0 false = { c.manager with
            queue := []
            workspace := c.manager.workspace.leave 0
            stage := .leaving false } := by
          simp [Manager.leave, ← empty]
        exact .leaves running (.inr ⟨Bool.eq_false_iff.mpr closed, empty, rfl⟩) manager rfl rfl
  · rename_i asked leaving
    split
    · rename_i left
      exact .shut leaving (Option.isNone_iff_eq_none.mp left) rfl rfl rfl
    · exact .rests rfl rfl rfl
  · exact .rests rfl rfl rfl

theorem stepped (c : Collection) (d : Launcher × Deed) : Stepped c d.1 (c.undergo d) := by
  obtain ⟨launcher, d⟩ := d
  have still : ∀ {e : Workspace.Deed}, (∀ grace, e ≠ .leave grace) → ¬ e.Leaves := by
    rintro e other ⟨grace, rfl⟩
    exact other grace rfl
  cases d with
  | goOn => exact stepped_goOn c launcher
  | serve => exact stepped_serve c launcher
  | depart => exact .own (d := .depart) trivial (still (by simp)) rfl rfl rfl
  | advance milliseconds =>
    exact .own (d := .advance milliseconds) trivial (still (by simp)) rfl rfl rfl
  | session number a => exact .own (d := .session number a) trivial (still (by simp)) rfl rfl rfl
  | consume number => exact .own (d := .consume number) trivial (still (by simp)) rfl rfl rfl

/-! ## The commands -/

/-- The documents of a language that commands activate. -/
def activated (language : String) (commands : List Manager.Command) : List (Path × String) :=
  commands.flatMap (Manager.Command.activated language)

theorem activated_append (language : String) (xs ys : List Manager.Command) :
    activated language (xs ++ ys) = activated language xs ++ activated language ys :=
  List.flatMap_append

/-- Whether commands only activate documents. -/
def Plain (commands : List Manager.Command) : Prop := ∀ grace, .shutdown grace ∉ commands

/-- Where the documents of a language are, of which some were activated; the order to shut
down comes after all of them. -/
structure Conveys (c : Collection) (language : String) (all acts : List (Path × String)) :
    Prop where
  accepting : c.manager.accepting = true
  planned : acts ++ activated language c.manager.queue ++ activated language c.feed = all
  feed : Plain c.feed
  fed : c.stage ≠ .feeding → c.feed = []
  handing : c.stage ≠ .leaving → c.stage ≠ .done →
    c.manager.stage = .running ∧ Plain c.manager.queue
  asked : c.manager.stage = .running → c.stage = .leaving →
    ∃ commands grace, c.manager.queue = commands ++ [.shutdown grace] ∧ Plain commands
  left : c.manager.stage ≠ .running → c.manager.queue = []
  beyond : c.stage = .done → c.manager.stage = .ended

variable {language : String} {all acts : List (Path × String)}

/-- Once the manager leaves, every document was activated. -/
theorem Conveys.all_of_left (h : c.Conveys language all acts) (left : c.manager.stage ≠ .running) :
    acts = all := by
  have fed : c.feed = [] := by
    refine h.fed fun feeding => left (h.handing ?_ ?_).1 <;> simp [feeding]
  have planned := h.planned
  rw [h.left left, fed] at planned
  simpa [activated] using planned

theorem Conveys.within (h : c.Conveys language all acts) : acts <+: all := by
  rw [← h.planned, List.append_assoc]
  exact List.prefix_append _ _

theorem send_workspace (m : Manager) (command : Manager.Command) :
    (m.send command).1.workspace = m.workspace ∧ (m.send command).1.stage = m.stage := by
  unfold Manager.send
  split <;> exact ⟨rfl, rfl⟩

theorem queue_send {m : Manager} (accepting : m.accepting = true) (running : m.stage = .running)
    (command : Manager.Command) :
    (m.send command).1 = { m with queue := m.queue ++ [command] } := by
  simp [Manager.send, accepting, running]

theorem Conveys.aside (h : c.Conveys language all acts)
    (accepting : c'.manager.accepting = c.manager.accepting)
    (queue : c'.manager.queue = c.manager.queue)
    (managing : c'.manager.stage = c.manager.stage) (feed : c'.feed = c.feed)
    (stage : c'.stage = c.stage) : c'.Conveys language all acts := by
  refine ⟨accepting.trans h.accepting, ?_, ?_, ?_, ?_, ?_, ?_, ?_⟩
  · rw [queue, feed]
    exact h.planned
  · rw [feed]
    exact h.feed
  · rw [stage, feed]
    exact h.fed
  · rw [stage, managing, queue]
    exact h.handing
  · rw [stage, managing, queue]
    exact h.asked
  · rw [managing, queue]
    exact h.left
  · rw [stage, managing]
    exact h.beyond

theorem Conveys.hand (h : c.Conveys language all acts) {command : Manager.Command}
    {rest : List Manager.Command} (feeding : c.stage = .feeding) (next : c.feed = command :: rest)
    (manager : c'.manager = (c.manager.send command).1) (feed : c'.feed = rest)
    (stage : c'.stage = .feeding) : c'.Conveys language all acts := by
  obtain ⟨running, plain⟩ := h.handing (by simp [feeding]) (by simp [feeding])
  rw [queue_send h.accepting running] at manager
  have ahead := h.feed
  rw [next] at ahead
  have planned := h.planned
  rw [next, ← List.singleton_append, activated_append] at planned
  refine ⟨?_, ?_, ?_, ?_, ?_, ?_, ?_, ?_⟩ <;> simp only [manager, feed, stage]
  · exact h.accepting
  · rw [activated_append, ← planned]
    simp
  · exact fun grace later => ahead grace (List.mem_cons_of_mem _ later)
  · exact fun other => absurd rfl other
  · refine fun _ _ => ⟨running, fun grace asked => ?_⟩
    rcases List.mem_append.mp asked with before | now
    · exact plain grace before
    · exact ahead grace (List.mem_singleton.mp now ▸ List.mem_cons_self)
  · exact fun _ leaving => absurd leaving (by simp)
  · exact fun left => absurd running left
  · exact fun done => absurd done (by simp)

theorem Conveys.ask (h : c.Conveys language all acts) {deadline grace : Nat}
    (listening : c.stage = .listening deadline)
    (manager : c'.manager = (c.manager.send (.shutdown grace)).1) (feed : c'.feed = c.feed)
    (stage : c'.stage = .leaving) : c'.Conveys language all acts := by
  obtain ⟨running, plain⟩ := h.handing (by simp [listening]) (by simp [listening])
  rw [queue_send h.accepting running] at manager
  refine ⟨?_, ?_, ?_, ?_, ?_, ?_, ?_, ?_⟩ <;> simp only [manager, feed, stage]
  · exact h.accepting
  · have none : activated language [.shutdown grace] = [] := rfl
    rw [activated_append, none, List.append_nil]
    exact h.planned
  · exact h.feed
  · exact fun _ => h.fed (by simp [listening])
  · exact fun still => absurd rfl still
  · exact fun _ _ => ⟨c.manager.queue, grace, rfl, plain⟩
  · exact fun left => absurd running left
  · exact fun done => absurd done (by simp)

/-- The manager takes the order to shut down when there is nothing else to take. -/
theorem Conveys.leave (h : c.Conveys language all acts) {grace : Nat} {asked : Bool}
    {rest : List Manager.Command} (running : c.manager.stage = .running)
    (next : c.manager.queue = .shutdown grace :: rest ∨
      c.manager.accepting = false ∧ c.manager.queue = [] ∧ rest = [])
    (manager : c'.manager = { c.manager with
      queue := rest
      workspace := c.manager.workspace.leave grace
      stage := .leaving asked })
    (feed : c'.feed = c.feed) (stage : c'.stage = c.stage) : c'.Conveys language all acts := by
  obtain next | ⟨closed, -⟩ := next
  -- The collection holds its end of the queue open until it is done.
  case inr =>
    rw [h.accepting] at closed
    cases closed
  have ordered : ¬ Plain c.manager.queue := fun plain => plain grace (by simp [next])
  have undone : c.stage ≠ .done := fun done => by
    rw [h.beyond done] at running
    cases running
  have leaving : c.stage = .leaving := by
    cases at_ : c.stage with
    | feeding | listening => exact absurd (h.handing (by simp [at_]) undone).2 ordered
    | leaving => rfl
    | done => exact absurd at_ undone
  obtain ⟨commands, last, queue, plain⟩ := h.asked running leaving
  -- The order is the last command and the only one of its kind, so nothing is dropped with it.
  have empty : rest = [] := by
    rw [next] at queue
    cases commands with
    | nil => exact (List.cons.inj queue).2
    | cons command commands =>
      exact absurd ((List.cons.inj queue).1 ▸ List.mem_cons_self) (plain grace)
  subst empty
  have planned := h.planned
  rw [next] at planned
  refine ⟨?_, ?_, ?_, ?_, ?_, ?_, ?_, ?_⟩ <;> simp only [manager, feed, stage]
  · exact h.accepting
  · exact planned
  · exact h.feed
  · exact h.fed
  · exact fun still => absurd leaving still
  · exact fun still => absurd still (by simp)
  · exact fun _ => trivial
  · exact fun done => absurd done undone

theorem Conveys.activate (h : c.Conveys language all acts) {name : String} {path : Path}
    {text : String} {rest : List Manager.Command} {w : Workspace}
    (next : c.manager.queue = .activate name path text :: rest)
    (manager : c'.manager = { c.manager with queue := rest, workspace := w })
    (feed : c'.feed = c.feed) (stage : c'.stage = c.stage) :
    c'.Conveys language all (acts ++ if name = language then [(path, text)] else []) := by
  have planned := h.planned
  rw [next, ← List.singleton_append, activated_append] at planned
  have one : activated language [.activate name path text] =
      if name = language then [(path, text)] else [] := by
    simp [activated, Manager.Command.activated]
  refine ⟨?_, ?_, ?_, ?_, ?_, ?_, ?_, ?_⟩ <;> simp only [manager, feed, stage]
  · exact h.accepting
  · rw [← planned, one]
    simp
  · exact h.feed
  · exact h.fed
  · intro still undone
    obtain ⟨running, plain⟩ := h.handing still undone
    rw [next] at plain
    exact ⟨running, fun grace later => plain grace (List.mem_cons_of_mem _ later)⟩
  · intro running leaving
    obtain ⟨commands, grace, queue, plain⟩ := h.asked running leaving
    rw [next] at queue
    cases commands with
    | nil => simp at queue
    | cons command commands =>
      refine ⟨commands, grace, (List.cons.inj queue).2, fun grace later => ?_⟩
      exact plain grace (List.mem_cons_of_mem _ later)
  · intro left
    have none := h.left left
    rw [next] at none
    cases none
  · exact h.beyond

theorem Conveys.listen (h : c.Conveys language all acts) {deadline : Nat}
    (fed : c.stage = .feeding ∧ c.feed = [] ∨ ∃ t, c.stage = .listening t)
    (manager : c'.manager = c.manager) (feed : c'.feed = c.feed)
    (stage : c'.stage = .listening deadline) : c'.Conveys language all acts := by
  have empty : c.feed = [] := by
    rcases fed with ⟨-, empty⟩ | ⟨t, listening⟩
    · exact empty
    · exact h.fed (by simp [listening])
  have early : c.stage ≠ .leaving ∧ c.stage ≠ .done := by
    rcases fed with ⟨at_, -⟩ | ⟨t, at_⟩ <;> simp [at_]
  have handing := h.handing early.1 early.2
  refine ⟨?_, ?_, ?_, ?_, ?_, ?_, ?_, ?_⟩ <;> simp only [manager, feed, stage]
  · exact h.accepting
  · exact h.planned
  · exact h.feed
  · exact fun _ => empty
  · exact fun _ _ => handing
  · exact fun _ leaving => absurd leaving (by simp)
  · exact h.left
  · exact fun done => absurd done (by simp)

theorem Conveys.finish (h : c.Conveys language all acts) (leaving : c.stage = .leaving)
    (beyond : c.manager.stage = .ended) (manager : c'.manager = c.manager)
    (feed : c'.feed = c.feed) (stage : c'.stage = .done) : c'.Conveys language all acts := by
  refine ⟨?_, ?_, ?_, ?_, ?_, ?_, ?_, ?_⟩ <;> simp only [manager, feed, stage]
  · exact h.accepting
  · exact h.planned
  · exact h.feed
  · exact fun _ => h.fed (by simp [leaving])
  · exact fun _ undone => absurd rfl undone
  · exact fun running => absurd (beyond.symm.trans running) (by simp)
  · exact h.left
  · exact fun _ => beyond

theorem Conveys.shut (h : c.Conveys language all acts) {asked : Bool}
    (leaving : c.manager.stage = .leaving asked)
    (manager : c'.manager = { c.manager with stage := .ended }) (feed : c'.feed = c.feed)
    (stage : c'.stage = c.stage) : c'.Conveys language all acts := by
  have none := h.left (by simp [leaving])
  refine ⟨?_, ?_, ?_, ?_, ?_, ?_, ?_, ?_⟩ <;> simp only [manager, feed, stage]
  · exact h.accepting
  · exact h.planned
  · exact h.feed
  · exact h.fed
  · intro still undone
    exact absurd ((h.handing still undone).1.symm.trans leaving) (by simp)
  · exact fun running => absurd running (by simp)
  · exact fun _ => none
  · exact fun _ => trivial

/-! ## The start -/

/-- The files of a language that can be read, with their texts. -/
def readable (s : LspSettings) (t : FileTree) (language : String) (files : List Path) :
    List (Path × String) :=
  files.filterMap fun path =>
    if s.languageFor path = some language then (t.readText path).toOption.map (path, ·) else none

/-- What a collection has to hand over for a language are its readable files. -/
theorem activated_feed (s : LspSettings) (t : FileTree) (w : Workspace) (files : List Path)
    (language : String) :
    activated language (start s t w files).feed = readable s t language files := by
  have one : ∀ path, (document s t path).toList.flatMap
      (fun d => (command? d).toList.flatMap (Manager.Command.activated language)) =
        (if s.languageFor path = some language then (t.readText path).toOption.map (path, ·)
          else none).toList := by
    intro path
    unfold document
    cases s.languageFor path with
    | none => rfl
    | some name =>
      cases t.readText path with
      | error e => by_cases same : name = language <;> simp [command?, Except.toOption, same]
      | ok text =>
        by_cases same : name = language <;>
          simp [command?, Except.toOption, same, Manager.Command.activated]
  simp only [start, activated, readable, List.filterMap_eq_flatMap_toList, List.flatMap_assoc]
  exact congrArg files.flatMap (funext one)

theorem conveys_start (s : LspSettings) (t : FileTree) (w : Workspace) (files : List Path)
    (language : String) :
    (start s t w files).Conveys language (readable s t language files) [] := by
  have plain : Plain (start s t w files).feed := by
    intro grace mem
    obtain ⟨d, hd, is⟩ := List.mem_filterMap.mp mem
    obtain ⟨path, -, made⟩ := List.mem_filterMap.mp hd
    obtain ⟨name, -, rfl⟩ := Option.map_eq_some_iff.mp made
    cases read : t.readText path <;> simp [read, command?] at is
  refine ⟨rfl, ?_, plain, fun other => absurd rfl other, fun _ _ => ⟨rfl, ?_⟩, ?_, ?_, ?_⟩
  · exact activated_feed s t w files language
  · exact fun grace mem => by cases mem
  · exact fun _ leaving => absurd leaving (by simp [start])
  · exact fun _ => rfl
  · exact fun done => absurd done (by simp [start])

end Collection

end LanguageClient
