import LanguageClient.Proofs.Session.Lifecycle
import LanguageClient.Proofs.Workspace.Routine

/-!
# What a departure leaves behind

The session of a lane is shut down only after the courier has ended, and when that has
returned the session has exited (`Retires`).  Every lane is registered, or a departure has
still to pass it, or it is shut down (`Minds`): when a workspace has been left, all are.
-/

set_option autoImplicit false

namespace LanguageClient

namespace Lane

variable {l : Lane} {n : Nat}

/-! ## The courier does not say farewell -/

theorem farewell_fail (l : Lane) (e : ClientError) : (l.fail e).1.farewell = l.farewell := by
  unfold fail
  split <;> rfl

theorem farewell_open (l : Lane) (item : Activation) :
    (l.open item).1.farewell = l.farewell := by
  unfold Lane.open
  split
  · exact farewell_fail l _
  · rfl

theorem farewell_switch (l : Lane) (item : Activation) :
    (l.switch item).1.farewell = l.farewell := by
  unfold switch
  split
  · exact farewell_open l item
  · split
    · exact farewell_fail l _
    · rfl

theorem farewell_takeNext (l : Lane) : l.takeNext.1.farewell = l.farewell := by
  unfold takeNext
  split
  · exact farewell_switch _ _
  · split <;> rfl

theorem farewell_proceed (l : Lane) (result : Except ClientError Json) :
    (l.proceed result).1.farewell = l.farewell := by
  unfold proceed
  split
  case h_8 => exact farewell_open l _
  case h_9 | h_10 => exact farewell_fail l _
  all_goals rfl

theorem farewell_consume (l : Lane) : l.consume.1.farewell = l.farewell := by
  unfold consume
  split
  · rfl
  · exact farewell_takeNext l
  · rfl
  · split
    · exact farewell_proceed l _
    · rfl

/-- Only a farewell begins the call that shuts a session down, and only once. -/
theorem farewell_step (l : Lane) (a : Action) :
    (l.step a).1.farewell = l.farewell ∨
      ∃ grace, a = .bidFarewell grace ∧ l.courier = .ended ∧ l.farewell = none := by
  cases a with
  | bidFarewell grace =>
    simp only [step, bidFarewell]
    split
    · rename_i ready
      exact .inr ⟨grace, rfl, ready⟩
    · exact .inl rfl
  | activate path text =>
    simp only [step, activate]
    split
    · exact .inl rfl
    · split <;> exact .inl rfl
  | consume => exact .inl (farewell_consume l)
  | session | close | release => exact .inl rfl

/-! ## The end of a session -/

/-- A call goes on with what it is for. -/
theorem Named.goal_step (h : l.Named) {c : Call} (hc : l.session.call? n = some c) (a : Action) :
    ∃ c', (l.step a).1.session.call? n = some c' ∧ c'.goal = c.goal := by
  have step := stepped l a
  generalize (l.step a).1 = l' at step ⊢
  cases step with
  | session a =>
    have goal := (Session.later_step l.session a).goal n
    rw [hc, Option.map_some] at goal
    exact Option.map_eq_some_iff.mp goal
  | released | activated | aside => exact ⟨c, hc, rfl⟩
  | @called _ goal =>
    have other : n ≠ l.nextCall := by
      rintro rfl
      rw [h.fresh _ (Nat.le_refl _)] at hc
      cases hc
    refine ⟨c, ?_, rfl⟩
    rw [Session.call?_begin (h.fresh _ (Nat.le_refl _)), if_neg other]
    exact hc

/-- What holds of the end of a lane: its session has gone on from its launch, and it is shut
down by a call that begins when the courier has ended. -/
structure Retires (l : Lane) : Prop where
  named : l.Named
  launched : ∃ language limit process clock deeds,
    l.session = (Session.launch language limit process clock).through deeds
  farewell : ∀ n, l.farewell = some n → l.courier = .ended ∧
    ∃ c grace, l.session.call? n = some c ∧ c.goal = .shutdown grace

theorem retires_start (language : String) (limit : Nat) (process : Option Nat) (clock : Nat)
    (greeting : InitializeParams) (folder : Path) :
    (start (.launch language limit process clock) greeting folder).Retires := by
  refine ⟨named_start _ greeting folder rfl, ⟨language, limit, process, clock, [], rfl⟩, ?_⟩
  intro n own
  cases own

theorem Retires.step (h : l.Retires) (a : Action) : (l.step a).1.Retires := by
  refine ⟨h.named.step a, ?_, fun n own => ?_⟩
  · obtain ⟨language, limit, process, clock, deeds, session⟩ := h.launched
    obtain ⟨more, later⟩ := through_step l a
    refine ⟨language, limit, process, clock, deeds ++ more, ?_⟩
    rw [later, session, Session.through_append]
  · rcases farewell_step l a with same | ⟨grace, rfl, ended, alone⟩
    · obtain ⟨ended, c, grace, hc, goal⟩ := h.farewell n (same ▸ own)
      obtain ⟨c', hc', kept⟩ := h.named.goal_step hc a
      exact ⟨ended_step ended a, c', grace, hc', kept.trans goal⟩
    · refine ⟨ended_step ended _, .start (.shutdown grace), grace, ?_, rfl⟩
      have bids : l.bidFarewell grace = { l with
          session := l.session.begin l.nextCall (.shutdown grace)
          nextCall := l.nextCall + 1
          farewell := some l.nextCall } := if_pos ⟨ended, alone⟩
      simp only [Lane.step, bids] at own ⊢
      rw [Session.call?_begin (h.named.fresh _ (Nat.le_refl _)), if_pos]
      exact (Option.some.inj own).symm

theorem Retires.run (h : l.Retires) (as : List Action) : (l.run as).1.Retires := by
  induction as generalizing l with
  | nil => exact h
  | cons a as ih => exact ih (h.step a)

/-- When the session of a lane is shut down it has exited, without an error, and the courier
has ended. -/
theorem Retires.passed (h : l.Retires) (done : l.farewellResult?.isSome = true) :
    l.courier = .ended ∧ l.farewellResult? = some (.ok .null) ∧ l.session.phase = .exited := by
  obtain ⟨r, result⟩ := Option.isSome_iff_exists.mp done
  obtain ⟨n, own, returned⟩ := Option.bind_eq_some_iff.mp result
  obtain ⟨ended, c, grace, hc, goal⟩ := h.farewell n own
  obtain ⟨language, limit, process, clock, deeds, session⟩ := h.launched
  have orderly := Session.orderly_through language limit process clock deeds
  rw [← session] at orderly
  rw [Session.result?, hc, Option.bind_some] at returned
  obtain ⟨rfl, exited⟩ := orderly.farewells n c grace r hc goal returned
  exact ⟨ended, result, exited⟩

/-- A session that is shut down stays so. -/
theorem Retires.passed_run (h : l.Retires) (done : l.farewellResult?.isSome = true)
    (as : List Action) : (l.run as).1.farewellResult?.isSome = true := by
  induction as generalizing l with
  | nil => exact done
  | cons a as ih =>
    refine ih (h.step a) ?_
    rcases farewell_step l a with same | ⟨_, -, -, alone⟩
    · exact (h.named.follows a).farewell same done
    · simp [farewellResult?, alone] at done

theorem Begun.retires (h : l.Begun) : l.Retires :=
  h.keeps (fun _ a _ retires => retires.step a) retires_start

end Lane

namespace Workspace

variable {w : Workspace} {n : Nat} {l : Lane}

/-! ## Lanes -/

/-- A lane was there before, or it is one that was opened and registered now. -/
theorem lanes_cases {d : Deed} {l' : Lane} (hl' : (w.undergo d).lanes[n]? = some l') :
    (∃ l as, w.lanes[n]? = some l ∧ l' = (l.run as).1) ∨
      l'.Begun ∧ ∃ language, (w.undergo d).registered.find? language = some n := by
  have before : n < w.lanes.length → ∃ l as, w.lanes[n]? = some l ∧ l' = (l.run as).1 := by
    intro inside
    have hl := List.getElem?_eq_getElem inside
    obtain ⟨as, later⟩ := lanes_undergo hl d
    exact ⟨_, as, hl, Option.some.inj (hl'.symm.trans later)⟩
  have within : n < (w.undergo d).tongues.length := by
    rw [tongues, List.length_map]
    exact (List.getElem?_eq_some_iff.mp hl').1
  have length : w.tongues.length = w.lanes.length := List.length_map _
  rcases d.quiet_or with quiet | ⟨launcher, name, path, text, rfl⟩
  · rw [tongues_undergo quiet, length] at within
    exact .inl (before within)
  · rw [undergo] at hl' within ⊢
    rcases activate_opens launcher w name path text with
      ⟨m, -, out⟩ | ⟨-, ⟨e, -, out⟩ | ⟨server, -, out⟩⟩ <;> rw [out] at hl' within ⊢
    · rw [tongues_activateIn, length] at within
      exact .inl (before within)
    · exact .inl (before (length ▸ within))
    · by_cases inside : n < w.lanes.length
      · exact .inl (before inside)
      -- The number that no lane had before is that of the lane that is opened.
      dsimp only at hl' within ⊢
      rw [tongues_activateIn, tongues_openLane, List.length_append, List.length_singleton,
        length] at within
      obtain rfl : n = w.lanes.length := by omega
      have new : (w.openLane name server).lanes[w.lanes.length]? =
          some (.start (Session.launch name server.limit server.process w.clock) w.greeting
            w.folder) := List.getElem?_concat_length
      obtain ⟨k, hk, goesOn⟩ := goesOn_activateIn new w.lanes.length path text
      obtain rfl := Option.some.inj (hk.symm.trans hl')
      refine .inr ⟨⟨_, _, _, _, _, _, goesOn⟩, name, ?_⟩
      rw [registered_activateIn]
      exact Entries.find?_put_same name w.lanes.length w.registered

/-! ## Departures -/

/-- What holds of every lane: it retires, and it is registered, or a departure has still to
pass it, or it is shut down. -/
structure Minds (w : Workspace) (n : Nat) (l : Lane) : Prop where
  retires : l.Retires
  minded : (∃ language, w.registered.find? language = some n) ∨ w.Awaits n ∨
    l.farewellResult?.isSome = true

/-- Whatever happens to a workspace, no lane is forgotten. -/
theorem minds_undergo (minds : ∀ n l, w.lanes[n]? = some l → w.Minds n l) (d : Deed) :
    ∀ n l, (w.undergo d).lanes[n]? = some l → (w.undergo d).Minds n l := by
  intro n l' hl'
  rcases lanes_cases hl' with ⟨l, as, hl, rfl⟩ | ⟨begun, registered⟩
  case inr => exact ⟨begun.retires, .inl registered⟩
  obtain ⟨retires, minded⟩ := minds n l hl
  refine ⟨retires.run as, ?_⟩
  have passed : l.farewellResult?.isSome = true →
      (l.run as).1.farewellResult?.isSome = true := fun done => retires.passed_run done as
  rcases minded with ⟨language, found⟩ | awaits | done
  · by_cases leaves : d.Leaves
    · obtain ⟨grace, rfl⟩ := leaves
      simp only [undergo, step, Workspace.leave]
      split
      · exact .inl ⟨language, found⟩
      · refine .inr (.inl ⟨_, rfl, ?_⟩)
        exact List.mem_map.mpr ⟨_, Entries.mem_of_find? found, rfl⟩
    · exact .inl ⟨language, find?_undergo found leaves⟩
  · rcases d.quiet_or with quiet | ⟨launcher, name, path, text, rfl⟩
    · exact .inr ((awaits.undergo hl quiet).imp_right passed)
    · obtain ⟨departure, leaving, ahead⟩ := awaits
      refine .inr (.inl ⟨departure, ?_, ahead⟩)
      exact (leaving_activate launcher w name path text).trans leaving
  · exact .inr (.inr (passed done))

/-- What every deed keeps is kept. -/
theorem keeps_through {P : Workspace → Prop} (steps : ∀ w d, P w → P (w.undergo d)) (now : P w)
    (deeds : List Deed) : P (w.through deeds) := by
  induction deeds generalizing w with
  | nil => exact now
  | cons d deeds ih => exact ih (steps w d now)

/-- When a workspace has been left and nothing was activated since, every session is shut
down. -/
theorem passed_of_left (minds : ∀ n l, w.lanes[n]? = some l → w.Minds n l)
    (unregistered : w.registered = []) (left : w.leaving = none) :
    ∀ l ∈ w.lanes, l.courier = .ended ∧ l.farewellResult? = some (.ok .null) ∧
      l.session.phase = .exited := by
  intro l member
  obtain ⟨n, hl⟩ := List.mem_iff_getElem?.mp member
  obtain ⟨retires, ⟨language, found⟩ | ⟨departure, leaving, -⟩ | done⟩ := minds n l hl
  · rw [unregistered] at found
    cases found
  · rw [left] at leaving
    cases leaving
  · exact retires.passed done

end Workspace

end LanguageClient
