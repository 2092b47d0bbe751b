import LanguageClient.Proofs.Session.Progress
import LanguageClient.Session.Settle

/-!
# A session at rest

When a session can take no step by itself, every call without a result waits for a time to
come, or for the exit of a server that was killed.
-/

set_option autoImplicit false

namespace LanguageClient.Session

variable {s : Session} {n : Nat} {c : Call}

/-- What keeps a session from taking a step by itself. -/
structure Resting (s : Session) : Prop where
  punctual : ∀ n c deadline, s.call? n = some c → deadline? c = some deadline → s.clock < deadline
  served : s.stopped = false → s.commands = []
  asleep : ∀ n c, s.call? n = some c → s.isWoken c = false

theorem resting_of_next? (rest : s.next? = none) : s.Resting := by
  unfold next? at rest
  split at rest
  · cases rest
  rename_i punctual
  split at rest
  · cases rest
  split at rest
  · cases rest
  rename_i unserved
  split at rest
  · cases rest
  rename_i asleep
  refine ⟨?_, ?_, ?_⟩
  · intro n c deadline hc set
    by_contra late
    unfold overdue? at punctual
    dsimp only at punctual
    split at punctual
    · rename_i none
      have early := List.filterMap_eq_nil_iff.mp none (n, c) (mem_of_call? hc)
      simp [set, Option.filter, Nat.le_of_not_lt late] at early
    · cases punctual
  · intro running
    have both : s.commands = [] ∧ s.mayCommand = true := by simpa [running] using unserved
    exact both.1
  · intro n c hc
    have all := List.find?_eq_none.mp asleep (n, c) (mem_of_call? hc)
    simpa using all

theorem nextDeadline?_of_deadline {deadline : Nat} (hc : s.call? n = some c)
    (set : deadline? c = some deadline) (ahead : s.clock < deadline) :
    s.nextDeadline?.isSome = true := by
  rw [nextDeadline?, List.isSome_min?_iff]
  apply List.ne_nil_of_mem (a := deadline)
  refine List.mem_filter.mpr ⟨List.mem_filterMap.mpr ⟨(n, c), mem_of_call? hc, set⟩, ?_⟩
  exact decide_eq_true ahead

/-- A call without a result waits for a time, or for the exit of a server that was killed. -/
theorem Lively.waits (h : s.Lively) (held : s.released = false) (rest : s.next? = none)
    (hc : s.call? n = some c) (none : c.result? = none) (present : c.stage ≠ .abandoned) :
    s.nextDeadline?.isSome = true ∨ c.stage = .killed ∧ s.phase ≠ .exited := by
  have resting := resting_of_next? rest
  have running : s.stopped = false := by
    by_contra stopped
    have released := h.stopped (by simpa using stopped)
    rw [held] at released
    cases released
  have asleep := resting.asleep n c hc
  have asks := (h.accounted.owned n c hc).asks
  have unasked : s.asksOf n = [] := by
    rw [asksOf, resting.served running]
    rfl
  unfold isWoken at asleep
  unfold Call.Asks at asks
  cases at_ : c.stage with
  | ready | answered => simp [at_] at asleep
  | asking topic =>
    -- The queue is empty, so it does not hold the ask of the call.
    rw [at_, unasked] at asks
    cases topic with
    | main =>
      obtain ⟨what, own, -⟩ := asks
      cases own
    | exit => cases asks
  | waiting id deadline | exiting deadline =>
    have set : deadline? c = some deadline := by simp [deadline?, at_]
    exact .inl (nextDeadline?_of_deadline hc set (resting.punctual n c deadline hc set))
  | killed => exact .inr ⟨rfl, by simpa [at_] using asleep⟩
  | finished r => simp [Call.result?, at_] at none
  | abandoned => exact absurd at_ present

/-! ## What a step leaves alone -/

theorem released_step (s : Session) (a : Action) : (s.step a).1.released = s.released := by
  have h := stepped s a
  generalize (s.step a).1 = s' at h ⊢
  cases h with
  | resumed n =>
    obtain ⟨_, _, _, _, _, frame⟩ := (byCall_resume s n).frame
    rw [frame]
  | @asked n topic what rest =>
    unfold perform
    cases what with
    | request | notify | subscribe =>
      simp only [applied_fst]
      rfl
  | cancelled | received | closed => rw [applied_fst]
  | aside => rfl

theorem present_undergo (h : s.Accounted) {d : Deed} (stays : ∀ n, d ≠ .abandon n)
    (present : ∀ n c, s.call? n = some c → c.stage ≠ .abandoned) :
    ∀ n c, (s.undergo d).1.call? n = some c → c.stage ≠ .abandoned := by
  intro n c' found
  rcases call?_of_undergo h found with ⟨c, hc, evolves⟩ | ⟨-, goal, -, rfl⟩
  · cases evolves with
    | stays => exact present n c' hc
    | moves _ _ present => exact present
    | gone _ leaves => exact absurd leaves (stays n)
  · simp [Call.start]

end LanguageClient.Session
