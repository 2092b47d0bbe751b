import LanguageClient.Proofs.Workspace.Rest
import Mathlib.Logic.Relation

/-!
# Lanes that are not left

Until it is left a lane takes steps of three kinds: the session goes on, a document is
activated, the courier goes on.  Every lane that is registered has come from its start by
such steps (`Begun`), and by such steps it becomes what it is later (`GoesOn`): what a
departure does concerns the lanes only that were registered when the workspace was left.
-/

set_option autoImplicit false

namespace LanguageClient

namespace Lane

variable {l l' : Lane}

/-! ## Steps -/

/-- Whether an action can happen to a lane before it is left. -/
def Action.isRoutine : Action → Bool
  | .session _ | .activate .. | .consume => true
  | .close | .bidFarewell _ | .release => false

/-- One lane is another one after a step that can happen before it is left. -/
def Takes (l l' : Lane) : Prop := ∃ a : Action, a.isRoutine = true ∧ l' = (l.step a).1

/-- One lane is another one after any number of such steps. -/
abbrev GoesOn : Lane → Lane → Prop := Relation.ReflTransGen Takes

/-- What every step keeps is kept. -/
theorem GoesOn.keeps {P : Lane → Prop} (h : l.GoesOn l')
    (steps : ∀ l a, Action.isRoutine a = true → P l → P (l.step a).1) (now : P l) : P l' := by
  induction h with
  | refl => exact now
  | tail _ step ih =>
    obtain ⟨a, routine, rfl⟩ := step
    exact steps _ a routine ih

/-- A lane that has gone on from its start. -/
def Begun (l : Lane) : Prop :=
  ∃ language limit process clock greeting folder,
    (start (.launch language limit process clock) greeting folder).GoesOn l

theorem Begun.keeps {P : Lane → Prop} (h : l.Begun)
    (steps : ∀ l a, Action.isRoutine a = true → P l → P (l.step a).1)
    (starts : ∀ language limit process clock greeting folder,
      P (start (.launch language limit process clock) greeting folder)) : P l := by
  obtain ⟨language, limit, process, clock, greeting, folder, goesOn⟩ := h
  exact goesOn.keeps steps (starts language limit process clock greeting folder)

theorem Begun.goesOn (h : l.Begun) (on : l.GoesOn l') : l'.Begun := by
  obtain ⟨language, limit, process, clock, greeting, folder, begun⟩ := h
  exact ⟨language, limit, process, clock, greeting, folder, begun.trans on⟩

/-- A courier that has ended does not come back. -/
theorem ended_step (ended : l.courier = .ended) (a : Action) : (l.step a).1.courier = .ended := by
  have step := stepped l a
  generalize (l.step a).1 = l' at step ⊢
  cases step with
  | session | released | activated => exact ended
  | called _ _ _ ends => exact ends ended
  | aside rests =>
    rcases rests with same | ⟨on, -⟩
    · exact same.trans ended
    · exact absurd ended on

/-- What a step of a lane does to its session is something that happens to a session. -/
theorem through_step (l : Lane) (a : Action) :
    ∃ deeds, (l.step a).1.session = l.session.through deeds := by
  have step := stepped l a
  generalize (l.step a).1 = l' at step ⊢
  cases step with
  | session a => exact ⟨[.act a], rfl⟩
  | released => exact ⟨[.release], rfl⟩
  | activated | aside => exact ⟨[], rfl⟩
  | @called _ goal => exact ⟨[.begin l.nextCall goal], rfl⟩

end Lane

namespace Workspace

variable {w : Workspace} {n : Nat} {l : Lane} {language : String}

/-! ## Lanes -/

theorem goesOn_stepLane (hl : w.lanes[n]? = some l) (m : Nat) {a : Lane.Action}
    (routine : a.isRoutine = true) :
    ∃ l', (w.stepLane m a).1.lanes[n]? = some l' ∧ l.GoesOn l' := by
  unfold Workspace.stepLane
  split
  · exact ⟨l, hl, .refl⟩
  · rename_i k hk
    refine ⟨_, lanes_setLane hl m (k.step a).1, ?_⟩
    split
    · rename_i same
      subst same
      obtain rfl := Option.some.inj (hk.symm.trans hl)
      exact .single ⟨a, routine, rfl⟩
    · exact .refl

theorem goesOn_activateIn (hl : w.lanes[n]? = some l) (m : Nat) (path : Path) (text : String) :
    ∃ l', (w.activateIn m path text).1.1.lanes[n]? = some l' ∧ l.GoesOn l' := by
  unfold Workspace.activateIn
  split
  · exact ⟨l, hl, .refl⟩
  · rename_i k hk
    refine ⟨_, lanes_setLane hl m (k.activate path text).1, ?_⟩
    split
    · rename_i same
      subst same
      obtain rfl := Option.some.inj (hk.symm.trans hl)
      exact .single ⟨.activate path text, rfl, rfl⟩
    · exact .refl

/-! ## Departures -/

/-- A departure has nothing to do with a lane. -/
def Spares (w : Workspace) (n : Nat) : Prop :=
  ∀ departure, w.leaving = some departure → n ∉ departure.rest

/-- Nothing but leaving gives a departure more to do. -/
theorem rest_undergo {d : Deed} (still : ¬ d.Leaves) {after : Departure}
    (now : (w.undergo d).leaving = some after) :
    ∃ before, w.leaving = some before ∧ after.rest ⊆ before.rest := by
  have same : (w.undergo d).leaving = w.leaving →
      ∃ before, w.leaving = some before ∧ after.rest ⊆ before.rest := fun kept =>
    ⟨after, kept.symm.trans now, List.Subset.refl _⟩
  cases d with
  | activate launcher name path text => exact same (leaving_activate launcher w name path text)
  | leave grace => exact absurd ⟨grace, rfl⟩ still
  | advance => exact same rfl
  | session number a => exact same (leaving_stepLane w number _)
  | consume number => exact same (leaving_stepLane w number _)
  | depart =>
    simp only [undergo, step, Workspace.depart] at now
    split at now
    · rename_i none
      rw [none] at now
      cases now
    · cases now
    · rename_i grace number rest left
      refine ⟨_, left, ?_⟩
      have shorter : some ⟨grace, rest⟩ = some after → after.rest ⊆ number :: rest := by
        intro passed
        obtain rfl := Option.some.inj passed
        exact List.subset_cons_self number rest
      split at now
      · exact shorter now
      · split at now
        · obtain rfl := Option.some.inj (left.symm.trans now)
          exact List.Subset.refl _
        · rw [leaving_stepLane] at now
          obtain rfl := Option.some.inj (left.symm.trans now)
          exact List.Subset.refl _
        · dsimp only at now
          rw [leaving_stepLane] at now
          exact shorter now

theorem Spares.undergo (h : w.Spares n) {d : Deed} (still : ¬ d.Leaves) :
    (w.undergo d).Spares n := by
  intro after now member
  obtain ⟨before, left, within⟩ := rest_undergo still now
  exact h before left (within member)

/-- A departure passes over the lanes with which it has nothing to do. -/
theorem lanes_depart (hl : w.lanes[n]? = some l) (spared : w.Spares n) :
    w.depart.1.lanes[n]? = some l := by
  have other : ∀ (v : Workspace) (m : Nat) (a : Lane.Action), v.lanes = w.lanes → m ≠ n →
      (v.stepLane m a).1.lanes[n]? = some l := by
    intro v m a same different
    have here : v.lanes[n]? = some l := by rw [same, hl]
    unfold Workspace.stepLane
    split
    · exact here
    · exact (lanes_setLane here m _).trans (if_neg different ▸ rfl)
  unfold Workspace.depart
  split
  · exact hl
  · exact hl
  · rename_i grace number rest left
    have different : number ≠ n := fun same => spared _ left (same ▸ List.mem_cons_self)
    split
    · exact hl
    · split
      · exact hl
      · exact other w number _ rfl different
      · exact other { w with leaving := some ⟨grace, rest⟩ } number _ rfl different

/-- Whatever happens, a lane with which no departure has to do goes on. -/
theorem goesOn_undergo (hl : w.lanes[n]? = some l) (spared : w.Spares n) {d : Deed}
    (still : ¬ d.Leaves) : ∃ l', (w.undergo d).lanes[n]? = some l' ∧ l.GoesOn l' := by
  cases d with
  | activate launcher name path text =>
    rw [undergo]
    rcases activate_opens launcher w name path text with
      ⟨m, -, out⟩ | ⟨-, ⟨e, -, out⟩ | ⟨server, -, out⟩⟩ <;> rw [out]
    · exact goesOn_activateIn hl m path text
    · exact ⟨l, hl, .refl⟩
    · exact goesOn_activateIn (lanes_openLane hl name server) _ path text
  | leave grace => exact absurd ⟨grace, rfl⟩ still
  | depart => exact ⟨l, lanes_depart hl spared, .refl⟩
  | advance milliseconds =>
    refine ⟨_, ?_, .single ⟨.session (.advance milliseconds), rfl, rfl⟩⟩
    simp only [undergo, step, Workspace.advance, List.getElem?_map, hl, Option.map_some]
  | session number a => exact goesOn_stepLane hl number rfl
  | consume number => exact goesOn_stepLane hl number rfl

theorem goesOn_through (hl : w.lanes[n]? = some l) (spared : w.Spares n) {deeds : List Deed}
    (still : ∀ d ∈ deeds, ¬ d.Leaves) :
    ∃ l', (w.through deeds).lanes[n]? = some l' ∧ l.GoesOn l' := by
  induction deeds generalizing w l with
  | nil => exact ⟨l, hl, .refl⟩
  | cons d deeds ih =>
    have first := still d List.mem_cons_self
    obtain ⟨l₁, hl₁, goes₁⟩ := goesOn_undergo hl spared first
    obtain ⟨l₂, hl₂, goes₂⟩ := ih hl₁ (spared.undergo first) fun d later =>
      still d (List.mem_cons_of_mem _ later)
    exact ⟨l₂, hl₂, goes₁.trans goes₂⟩

/-! ## Registered lanes -/

/-- What holds of the lanes that are registered: they have gone on from their starts, and no
departure has to do with them. -/
structure Manned (w : Workspace) : Prop where
  begun : ∀ e ∈ w.registered, ∃ l, w.lanes[e.2]? = some l ∧ l.Begun
  spared : ∀ e ∈ w.registered, w.Spares e.2
  known : ∀ departure, w.leaving = some departure → ∀ n ∈ departure.rest, n < w.lanes.length

theorem manned_create (processId : Nat) (folder : Path) (root : Option String) :
    ({ create processId folder with rootUri := root } : Workspace).Manned := by
  refine ⟨fun e member => ?_, fun e member => ?_, fun departure left => ?_⟩
  · cases member
  · cases member
  · cases left

/-- What a deed registers is a lane that it opens. -/
theorem registered_cases {d : Deed} (still : ¬ d.Leaves) {e : String × Nat}
    (member : e ∈ (w.undergo d).registered) :
    e ∈ w.registered ∨ e.2 = w.lanes.length ∧ ∃ l, (w.undergo d).lanes[e.2]? = some l ∧ l.Begun := by
  rcases d.quiet_or with quiet | ⟨launcher, name, path, text, rfl⟩
  · rw [registered_undergo quiet still] at member
    exact .inl member
  · rw [undergo] at member ⊢
    rcases activate_opens launcher w name path text with
      ⟨n, -, out⟩ | ⟨-, ⟨_, -, out⟩ | ⟨server, -, out⟩⟩ <;> rw [out] at member ⊢
    · rw [registered_activateIn] at member
      exact .inl member
    · exact .inl member
    · dsimp only at member ⊢
      rw [registered_activateIn, Workspace.openLane] at member
      rcases Entries.mem_put member with rfl | old
      · refine .inr ⟨rfl, ?_⟩
        have new : (w.openLane name server).lanes[w.lanes.length]? =
            some (.start (Session.launch name server.limit server.process w.clock) w.greeting
              w.folder) := List.getElem?_concat_length
        obtain ⟨l', hl', goesOn⟩ := goesOn_activateIn new w.lanes.length path text
        exact ⟨l', hl', _, _, _, _, _, _, goesOn⟩
      · exact .inl old

theorem Manned.undergo (h : w.Manned) (d : Deed) : (w.undergo d).Manned := by
  by_cases leaves : d.Leaves
  · obtain ⟨grace, rfl⟩ := leaves
    simp only [Workspace.undergo, step, Workspace.leave]
    split
    · exact h
    · refine ⟨fun e member => ?_, fun e member => ?_, fun departure left n member => ?_⟩
      · cases member
      · cases member
      · obtain rfl := Option.some.inj left
        obtain ⟨e, registered, rfl⟩ := List.mem_map.mp member
        obtain ⟨l, hl, -⟩ := h.begun e registered
        exact (List.getElem?_eq_some_iff.mp hl).1
  · have lasts : ∀ n, n < w.lanes.length → n < (w.undergo d).lanes.length := by
      intro n inside
      obtain ⟨as, later⟩ := lanes_undergo (List.getElem?_eq_getElem inside) d
      exact (List.getElem?_eq_some_iff.mp later).1
    refine ⟨fun e member => ?_, fun e member => ?_, fun after now n member => ?_⟩
    · rcases registered_cases leaves member with old | ⟨-, new⟩
      · obtain ⟨l, hl, begun⟩ := h.begun e old
        obtain ⟨l', hl', goesOn⟩ := goesOn_undergo hl (h.spared e old) leaves
        exact ⟨l', hl', begun.goesOn goesOn⟩
      · exact new
    · rcases registered_cases leaves member with old | ⟨new, -⟩
      · exact (h.spared e old).undergo leaves
      · -- A departure knows only lanes that were there before the new one.
        intro after now among
        obtain ⟨before, left, within⟩ := rest_undergo leaves now
        have less := h.known before left e.2 (within among)
        omega
    · obtain ⟨before, left, within⟩ := rest_undergo leaves now
      exact lasts n (h.known before left n (within member))

theorem Manned.through (h : w.Manned) (deeds : List Deed) : (w.through deeds).Manned := by
  induction deeds generalizing w with
  | nil => exact h
  | cons d deeds ih => exact ih (h.undergo d)

/-- The lane of a language, and what becomes of it until it is left. -/
theorem Manned.lane (h : w.Manned) (found : w.registered.find? language = some n)
    (hl : w.lanes[n]? = some l) : l.Begun ∧ w.Spares n := by
  have member := Entries.mem_of_find? found
  obtain ⟨k, hk, begun⟩ := h.begun _ member
  obtain rfl := Option.some.inj (hk.symm.trans hl)
  exact ⟨begun, h.spared _ member⟩

end Workspace

end LanguageClient
