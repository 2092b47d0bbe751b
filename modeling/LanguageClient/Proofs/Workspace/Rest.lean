import LanguageClient.Proofs.Session.Rest
import LanguageClient.Proofs.Workspace.Bearing

/-!
# A departure at rest

When no lane of a workspace that is being left can take a step by itself, and the departure
cannot go on, a time to come or the exit of a server that was killed is waited for.
-/

set_option autoImplicit false

namespace LanguageClient

namespace Lane

variable {l l' : Lane}

/-- Whether the calls that a lane waits for have begun and will get their results. -/
structure Sound (l : Lane) : Prop where
  named : l.Named
  lively : l.session.Lively
  present : ∀ n c, l.session.call? n = some c → c.stage ≠ .abandoned
  waits : ∀ n, Courier.call? l.courier = some n → l.session.call? n ≠ none
  leaves : ∀ n, l.farewell = some n → l.session.call? n ≠ none
  held : l.session.released = true → l.farewellResult?.isSome = true

theorem sound_start (language : String) (limit : Nat) (process : Option Nat) (clock : Nat)
    (greeting : InitializeParams) (folder : Path) :
    (start (.launch language limit process clock) greeting folder).Sound := by
  refine ⟨named_start _ greeting folder rfl, Session.lively_launch language limit process clock,
    ?_, ?_, ?_, ?_⟩
  · intro n c hc
    cases hc
  · intro n waits
    cases waits
  · intro n leaves
    cases leaves
  · intro released
    cases released

theorem Follows.farewell (h : Follows l l') (same : l'.farewell = l.farewell)
    (done : l.farewellResult?.isSome = true) : l'.farewellResult?.isSome = true := by
  obtain ⟨r, result⟩ := Option.isSome_iff_exists.mp done
  obtain ⟨n, own, ended⟩ := Option.bind_eq_some_iff.mp result
  rw [farewellResult?, same, own, Option.bind_some, h.results ended]
  rfl

theorem Sound.step (h : l.Sound) (a : Action)
    (beyond : a = .release → l.farewellResult?.isSome = true) : (l.step a).1.Sound := by
  have named := h.named.step a
  have follows := h.named.follows a
  have step := stepped l a
  generalize (l.step a).1 = l' at step named follows ⊢
  cases step with
  | session a =>
    have goal := (Session.later_step l.session a).goal
    have began : ∀ n, l.session.call? n ≠ none → (l.session.step a).1.call? n ≠ none := by
      intro n before after
      have same := goal n
      rw [after, Option.map_none] at same
      exact before (Option.map_eq_none_iff.mp same.symm)
    refine ⟨named, h.lively.undergo (.act a), ?_, fun n waits => began n (h.waits n waits),
      fun n leaves => began n (h.leaves n leaves), fun released => ?_⟩
    · exact Session.present_undergo h.lively.accounted (d := .act a) (by simp) h.present
    · rw [Session.released_step] at released
      exact follows.farewell rfl (h.held released)
  | released =>
    refine ⟨named, h.lively.undergo .release, h.present, h.waits, h.leaves, fun _ => ?_⟩
    exact follows.farewell rfl (beyond rfl)
  | activated => exact ⟨named, h.lively, h.present, h.waits, h.leaves, h.held⟩
  | @called _ goal courier queue farewell _ _ _ ended caller =>
    have new := h.named.fresh l.nextCall (Nat.le_refl _)
    have began : ∀ n, l.session.call? n ≠ none →
        (l.session.begin l.nextCall goal).call? n ≠ none := by
      intro n before
      rw [Session.call?_begin new]
      split
      · simp
      · exact before
    have own : (l.session.begin l.nextCall goal).call? l.nextCall ≠ none := by
      rw [Session.call?_begin new, if_pos rfl]
      simp
    refine ⟨named, h.lively.undergo (.begin l.nextCall goal), ?_, fun n waits => ?_,
      fun n leaves => ?_, fun released => ?_⟩
    · exact Session.present_undergo h.lively.accounted (d := .begin l.nextCall goal) (by simp)
        h.present
    · rcases caller with ⟨mine, -⟩ | ⟨done, -⟩
      · obtain rfl : l.nextCall = n := Option.some.inj (mine.symm.trans waits)
        exact own
      · subst done
        cases waits
    · rcases caller with ⟨-, same⟩ | ⟨-, -, mine⟩
      · exact began n (h.leaves n (same ▸ leaves))
      · obtain rfl : l.nextCall = n := Option.some.inj (mine.symm.trans leaves)
        exact own
    · -- A lane that was released has called for the last time.
      have done := h.held released
      rcases caller with ⟨-, same⟩ | ⟨-, alone, -⟩
      · exact follows.farewell same done
      · simp [farewellResult?, alone] at done
  | @aside _ courier _ _ rests =>
    refine ⟨named, h.lively, h.present, fun n waits => ?_, h.leaves, h.held⟩
    rcases rests with rfl | ⟨-, rfl | rfl⟩
    · exact h.waits n waits
    · cases waits
    · cases waits

theorem Works.sound (h : l.Works l') (sound : l.Sound) : l'.Sound := by
  cases h with
  | rests => exact sound
  | steps _ beyond => exact sound.step _ beyond

end Lane

/-- Whether a session waits for a time to come, or for the exit of a server that was killed. -/
def Session.Pends (s : Session) : Prop :=
  s.nextDeadline?.isSome = true ∨
    ∃ n c, s.call? n = some c ∧ c.stage = .killed ∧ s.phase ≠ .exited

namespace Lane

variable {l : Lane}

/-- A call of a lane at rest that has no result yet waits for something. -/
theorem Sound.pends_of_call (h : l.Sound) (idle : l.session.next? = none)
    (unpassed : l.farewellResult? = none) {n : Nat} (began : l.session.call? n ≠ none)
    (unfinished : l.session.result? n = none) : l.session.Pends := by
  obtain ⟨c, hc⟩ := Option.ne_none_iff_exists'.mp began
  have none : c.result? = none := by
    rw [Session.result?, hc, Option.bind_some] at unfinished
    exact unfinished
  have held : l.session.released = false := by
    cases released : l.session.released with
    | false => rfl
    | true =>
      have passed := h.held released
      rw [unpassed] at passed
      cases passed
  rcases h.lively.waits held idle hc none (h.present n c hc) with time | killed
  · exact .inl time
  · exact .inr ⟨n, c, hc, killed⟩

/-- A lane at rest that is still to be passed waits for something. -/
theorem Sound.pends (h : l.Sound) (rest : l.next? = none) {grace : Nat}
    (wait : Workspace.errand l grace = .wait) : l.session.Pends := by
  have idle : l.session.next? = none ∧ l.canConsume = false := by
    unfold next? at rest
    split at rest
    · cases rest
    · rename_i none
      exact ⟨none, by simpa using rest⟩
  unfold Workspace.errand at wait
  split at wait
  · cases wait
  rename_i shut
  split at wait
  · rename_i alone
    split at wait
    · cases wait
    rename_i on
    have unpassed : l.farewellResult? = none := by rw [farewellResult?, alone]; rfl
    have stuck := idle.2
    unfold canConsume at stuck
    have waiting : ∀ n, Courier.call? l.courier = some n →
        ((Courier.call? l.courier).bind l.session.result?).isSome = false → l.session.Pends := by
      intro n at_ none
      rw [at_, Option.bind_some, Option.isSome_eq_false_iff, Option.isNone_iff_eq_none] at none
      exact h.pends_of_call idle.1 unpassed (h.waits n at_) none
    cases at_ : l.courier with
    | starting => simp [at_] at stuck
    | idle => simp [at_, shut] at stuck
    | ended => exact absurd at_ on
    | subscribing n | greeting n | announcing n | closing n | opening n =>
      rw [at_] at stuck waiting
      exact waiting n rfl stuck
  · rename_i n own
    have unpassed : l.farewellResult? = none := by
      cases ended : l.farewellResult? with
      | none => rfl
      | some r => simp [ended] at wait
    refine h.pends_of_call idle.1 unpassed (h.leaves n own) ?_
    rw [farewellResult?, own, Option.bind_some] at unpassed
    exact unpassed

end Lane

namespace Workspace

variable {w : Workspace}

theorem sound_activateIn (sound : ∀ l ∈ w.lanes, l.Sound) (n : Nat) (path : Path) (text : String) :
    ∀ l ∈ (w.activateIn n path text).1.1.lanes, l.Sound := by
  unfold Workspace.activateIn
  split
  · exact sound
  · rename_i k hk
    intro l member
    rcases List.mem_or_eq_of_mem_set member with old | new
    · exact sound l old
    · rw [new]
      exact (sound k (List.mem_of_getElem? hk)).step (.activate path text) (by simp)

theorem sound_undergo (sound : ∀ l ∈ w.lanes, l.Sound) (d : Deed) :
    ∀ l ∈ (w.undergo d).lanes, l.Sound := by
  rcases d.quiet_or with quiet | ⟨launcher, name, path, text, rfl⟩
  · intro l' member
    obtain ⟨n, l, hl, hl'⟩ := lanes_of_undergo quiet member
    obtain ⟨k, hk, works, -⟩ := works_undergo hl quiet
    obtain rfl : k = l' := Option.some.inj (hk.symm.trans hl')
    exact works.sound (sound l (List.mem_of_getElem? hl))
  · rw [undergo]
    rcases activate_opens launcher w name path text with
      ⟨n, -, out⟩ | ⟨-, ⟨e, -, out⟩ | ⟨server, -, out⟩⟩ <;> rw [out]
    · exact sound_activateIn sound n path text
    · exact sound
    · refine sound_activateIn (fun l member => ?_) w.lanes.length path text
      rcases List.mem_append.mp member with old | new
      · exact sound l old
      · rw [List.mem_singleton.mp new]
        exact Lane.sound_start _ _ _ _ _ _

theorem next?_of_nextIn? {number : Nat} {lanes : List Lane} (rest : nextIn? number lanes = none) :
    ∀ l ∈ lanes, l.next? = none := by
  induction lanes generalizing number with
  | nil => simp
  | cons l lanes ih =>
    rw [nextIn?] at rest
    split at rest
    · cases rest
    · rename_i first
      exact List.forall_mem_cons.mpr ⟨first, ih rest⟩

/-- A departure at rest waits for something. -/
theorem pends_of_rest (sound : ∀ l ∈ w.lanes, l.Sound) (rest : w.next? = none)
    (leaving : w.leaving ≠ none) : ∃ l ∈ w.lanes, l.session.Pends := by
  unfold next? at rest
  split at rest
  · cases rest
  rename_i lanes
  split at rest
  · cases rest
  rename_i stuck
  obtain ⟨⟨grace, numbers⟩, left⟩ := Option.ne_none_iff_exists'.mp leaving
  unfold canDepart at stuck
  rw [left] at stuck
  cases numbers with
  | nil => simp at stuck
  | cons number numbers =>
    cases hl : w.lanes[number]? with
    | none => simp [hl] at stuck
    | some l =>
      have member := List.mem_of_getElem? hl
      have wait : errand l grace = .wait := by
        cases errand : errand l grace with
        | wait => rfl
        | act | pass => simp [hl, errand] at stuck
      exact ⟨l, member, (sound l member).pends (next?_of_nextIn? lanes l member) wait⟩

end Workspace

end LanguageClient
