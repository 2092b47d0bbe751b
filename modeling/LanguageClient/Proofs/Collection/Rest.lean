import LanguageClient.Proofs.Collection.Conveyance
import LanguageClient.Proofs.Workspace.Rest

/-!
# A collection at rest

A collection that is not done never gets stuck: it can take a step by itself, or it waits
for a time to come or for the exit of a server that was killed.
-/

set_option autoImplicit false

namespace LanguageClient.Collection

variable {c c' : Collection} {launcher : Launcher} {language : String}
  {all acts : List (Path × String)}

/-- What keeps a collection from getting stuck. -/
structure Sound (c : Collection) : Prop where
  conveys : ∀ language, ∃ all acts, c.Conveys language all acts
  lanes : ∀ l ∈ c.manager.workspace.lanes, l.Sound

theorem Conveys.step (h : c.Conveys language all acts) (stepped : Stepped c launcher c') :
    ∃ acts', c'.Conveys language all acts' := by
  cases stepped with
  | own _ _ manager feed stage | rests manager feed stage =>
    exact ⟨acts, h.aside (by rw [manager]) (by rw [manager]) (by rw [manager]) feed stage⟩
  | hands feeding next manager feed stage =>
    exact ⟨acts, h.hand feeding next manager feed stage⟩
  | listens fed manager feed stage => exact ⟨acts, h.listen fed manager feed stage⟩
  | asks listening manager feed stage => exact ⟨acts, h.ask listening manager feed stage⟩
  | ends leaving beyond manager feed stage =>
    exact ⟨acts, h.finish leaving beyond manager feed stage⟩
  | activates _ next manager feed stage => exact ⟨_, h.activate next manager feed stage⟩
  | leaves running next manager feed stage =>
    exact ⟨acts, h.leave running next manager feed stage⟩
  | shut leaving _ manager feed stage => exact ⟨acts, h.shut leaving manager feed stage⟩

theorem Sound.step (h : c.Sound) (stepped : Stepped c launcher c') : c'.Sound := by
  have conveys : ∀ language, ∃ all acts, c'.Conveys language all acts := by
    intro language
    obtain ⟨all, acts, conveys⟩ := h.conveys language
    exact ⟨all, conveys.step stepped⟩
  refine ⟨conveys, ?_⟩
  have same : c'.manager.workspace = c.manager.workspace →
      ∀ l ∈ c'.manager.workspace.lanes, l.Sound := fun workspace => workspace ▸ h.lanes
  have undergone : ∀ d, c'.manager.workspace = c.manager.workspace.undergo d →
      ∀ l ∈ c'.manager.workspace.lanes, l.Sound := fun d workspace =>
    workspace ▸ Workspace.sound_undergo h.lanes d
  cases stepped with
  | @own d _ _ manager => exact undergone d (by rw [manager])
  | rests manager | listens _ manager | ends _ _ manager | shut _ _ manager =>
    exact same (by rw [manager])
  | @hands command _ _ _ manager =>
    exact same (by rw [manager, (send_workspace c.manager command).1])
  | @asks _ grace _ manager =>
    exact same (by rw [manager, (send_workspace c.manager (.shutdown grace)).1])
  | @activates name path text _ _ _ manager =>
    exact undergone (.activate launcher name path text) (by rw [manager]; rfl)
  | @leaves grace _ _ _ _ manager => exact undergone (.leave grace) (by rw [manager]; rfl)

theorem sound_start (s : LspSettings) (t : FileTree) (w : Workspace) (files : List Path)
    (empty : w.lanes = []) : (start s t w files).Sound := by
  refine ⟨fun language => ⟨_, _, conveys_start s t w files language⟩, fun l member => ?_⟩
  rw [show (start s t w files).manager.workspace.lanes = [] from empty] at member
  cases member

theorem Sound.through (h : c.Sound) (deeds : List (Launcher × Deed)) : (c.through deeds).Sound := by
  induction deeds generalizing c with
  | nil => exact h
  | cons d deeds ih => exact ih (h.step (stepped c d))

/-! ## At rest -/

theorem nextDeadline?_of_lane {l : Lane} (member : l ∈ c.manager.workspace.lanes)
    (time : l.session.nextDeadline?.isSome = true) : c.nextDeadline?.isSome = true := by
  obtain ⟨deadline, set⟩ := Option.isSome_iff_exists.mp time
  have here : deadline ∈ c.manager.workspace.lanes.filterMap fun l => l.session.nextDeadline? :=
    List.mem_filterMap.mpr ⟨l, member, set⟩
  have first : c.manager.workspace.nextDeadline?.isSome = true := by
    rw [Workspace.nextDeadline?, List.isSome_min?_iff]
    exact List.ne_nil_of_mem here
  obtain ⟨earliest, is⟩ := Option.isSome_iff_exists.mp first
  rw [nextDeadline?, List.isSome_min?_iff, is]
  simp

/-- A command for which there is no room finds a queue with something in it. -/
theorem queue_ne_nil_of_hand {command : Manager.Command} (full : c.hand command = none) :
    c.manager.queue ≠ [] := by
  intro empty
  simp [hand, empty, capacity] at full

/-- A manager at rest with something in the queue does not run. -/
theorem not_running_of_queue (queued : c.manager.queue ≠ [])
    (unserved : c.manager.canServe = false) : c.manager.stage ≠ .running := by
  intro running
  simp [Manager.canServe, running, queued] at unserved

/-- A collection that is not done goes on, or it waits for a time to come or for the exit of
a server that was killed. -/
theorem Sound.goes_on (h : c.Sound) :
    c.stage = .done ∨ c.next?.isSome = true ∨ c.nextDeadline?.isSome = true ∨
      ∃ l ∈ c.manager.workspace.lanes, ∃ n call, l.session.call? n = some call ∧
        call.stage = .killed ∧ l.session.phase ≠ .exited := by
  -- Any language will do here: only the stages and the queue are asked about.
  obtain ⟨all, acts, conveys⟩ := h.conveys ""
  by_cases done : c.stage = .done
  · exact .inl done
  refine .inr ?_
  cases rest : c.next? with
  | some a => exact .inl rfl
  | none =>
    refine .inr ?_
    unfold next? at rest
    split at rest
    · cases rest
    rename_i stuck
    have stuck : c.goOn? = none := by simpa using stuck
    have managed : c.manager.next? = none := Option.map_eq_none_iff.mp rest
    unfold Manager.next? at managed
    split at managed
    · cases managed
    rename_i unserved
    have unserved : c.manager.canServe = false := by simpa using unserved
    have quiet : c.manager.workspace.next? = none := Option.map_eq_none_iff.mp managed
    unfold goOn? at stuck
    cases at_ : c.stage with
    | feeding =>
      have running := (conveys.handing (by simp [at_]) (by simp [at_])).1
      rw [at_] at stuck
      dsimp only at stuck
      split at stuck
      · cases stuck
      · have queued := queue_ne_nil_of_hand stuck
        exact absurd running (not_running_of_queue queued unserved)
    | listening deadline =>
      have running := (conveys.handing (by simp [at_]) (by simp [at_])).1
      rw [at_] at stuck
      dsimp only at stuck
      split at stuck
      · cases stuck
      · split at stuck
        · have queued := queue_ne_nil_of_hand stuck
          exact absurd running (not_running_of_queue queued unserved)
        · refine .inl ?_
          rw [nextDeadline?, List.isSome_min?_iff, at_]
          simp
    | leaving =>
      -- The order to shut down is still in the queue, or the manager has taken it.
      cases managing : c.manager.stage with
      | running =>
        obtain ⟨commands, grace, queue, -⟩ := conveys.asked managing at_
        exact absurd managing (not_running_of_queue (by simp [queue]) unserved)
      | leaving asked =>
        have left : c.manager.workspace.leaving ≠ none := by
          intro left
          simp [Manager.canServe, managing, left] at unserved
        obtain ⟨l, member, time | killed⟩ := Workspace.pends_of_rest h.lanes quiet left
        · exact .inl (nextDeadline?_of_lane member time)
        · exact .inr ⟨l, member, killed⟩
      | ended => simp [at_, managing] at stuck
    | done => exact absurd at_ done

end LanguageClient.Collection
