import LanguageClient.Proofs.Session.Correlation

/-!
# The phases that a session passes through

Calls, the dispatcher and the process watcher all change the phase of a session.  `Phased`
lists the changes that something happening can bring, with what must have been there for
them; a session that has ended is `Over`, and nothing brings it back.
-/

set_option autoImplicit false

namespace LanguageClient

/-- The ways in which a session may go from one phase to another. -/
inductive Phase.Passes : Phase → Phase → Prop
  | stays (p : Phase) : Passes p p
  | initializes : Passes .launched .initialized
  | shutsDown : Passes .initialized .shuttingDown
  | exits (p : Phase) : Passes p .exited

/-- Whether a goal is about the end of a session. -/
def Goal.ends : Goal → Bool
  | .requestShutdown | .shutdown _ => true
  | _ => false

namespace Session

open Dispatcher

variable {s s' t : Session} {n : Nat} {c : Call} {deeds : List Deed}

/-- What becomes of the phase of a session, of what it knows of the server, and of the
dispatcher where the session ends. -/
inductive Phased (s s' : Session) : Prop
  | stays (phase : s'.phase = s.phase)
      (known : s.capabilities.isSome = true → s'.capabilities.isSome = true)
  | initializes (was : s.phase = .launched) (now : s'.phase = .initialized)
      (known : s'.capabilities.isSome = true)
  | shutsDown (was : s.phase = .initialized) (now : s'.phase = .shuttingDown)
      (known : s'.capabilities = s.capabilities)
      (caller : ∃ n c, s.call? n = some c ∧ c.goal.ends = true)
  | exits (now : s'.phase = .exited) (closed : s'.dispatcher.closed = true)
      (pending : s'.dispatcher.pending = [])
      (cause : .close ∈ s.commands ∨ s.process = none ∧ s.flow = .ended)

theorem Phased.refl (s : Session) : Phased s s := .stays rfl id

theorem Phased.of_eq (phase : s'.phase = s.phase) (known : s'.capabilities = s.capabilities) :
    Phased s s' :=
  .stays phase fun was => by rw [known, was]

/-- What comes after without touching what the phases are about. -/
theorem Phased.before (h : Phased s t) (phase : s'.phase = t.phase)
    (known : s'.capabilities = t.capabilities) (dispatcher : s'.dispatcher = t.dispatcher) :
    Phased s s' := by
  cases h with
  | stays same kept => exact .stays (phase.trans same) fun was => by rw [known, kept was]
  | initializes was now has => exact .initializes was (phase.trans now) (by rw [known, has])
  | shutsDown was now kept caller =>
    exact .shutsDown was (phase.trans now) (known.trans kept) caller
  | exits now closed pending cause =>
    exact .exits (phase.trans now) (by rw [dispatcher, closed]) (by rw [dispatcher, pending]) cause

theorem Phased.passes (h : Phased s s') : Phase.Passes s.phase s'.phase := by
  cases h with
  | stays phase =>
    rw [phase]
    exact .stays _
  | initializes was now =>
    rw [was, now]
    exact .initializes
  | shutsDown was now =>
    rw [was, now]
    exact .shutsDown
  | exits now =>
    rw [now]
    exact .exits _

/-! ## Calls that go on -/

/-- The end is prepared from the initialized phase only, for a call that is about it. -/
theorem phased_shutsDown (hc : s.call? n = some c) (ends : c.goal.ends = true) :
    Phased s (s.advancePhase .initialized .shuttingDown) := by
  unfold advancePhase
  split
  · rename_i was
    exact .shutsDown was rfl rfl ⟨n, c, hc, ends⟩
  · exact .refl s

theorem phased_finish (h : Phased s t) (n : Nat) (r : Except ClientError Json) :
    Phased s (t.finish n r).1 :=
  h.before rfl rfl rfl

theorem phased_askFor (h : Phased s t) (n : Nat) (topic : Topic) (what : Ask) :
    Phased s (t.askFor n topic what) :=
  h.before rfl rfl rfl

/-- A handshake that succeeds has the capabilities stored before the phase changes. -/
theorem phased_handshake (s : Session) (n : Nat) (outcome : Except ClientError Json) :
    Phased s (s.handshake n outcome).1 := by
  unfold handshake
  split
  · exact phased_finish (.refl s) n _
  · exact phased_finish (.refl s) n _
  · split
    · exact phased_finish (.refl s) n _
    · rename_i r _
      have known : (s.capabilities <|> some (Capabilities.ofJson r.capabilities)).isSome = true := by
        cases s.capabilities <;> rfl
      refine phased_finish ?_ n _
      unfold advancePhase
      split
      · rename_i was
        exact .initializes was rfl known
      · exact .stays rfl fun _ => known

theorem phased_conclude (hc : s.call? n = some c) (outcome : Except ClientError Json) :
    Phased s (s.conclude n c.goal outcome).1 := by
  unfold conclude
  split
  · exact phased_handshake s n _
  · rename_i goal
    exact phased_finish (phased_shutsDown hc (by rw [goal]; rfl)) n _
  · rename_i goal
    exact phased_askFor (phased_shutsDown hc (by rw [goal]; rfl)) n _ _
  · exact phased_askFor (.refl s) n _ _
  · exact phased_finish (.refl s) n _

theorem phased_timeOut (hc : s.call? n = some c) (id : Int) :
    Phased s (s.timeOut n c.goal id).1 := by
  have held : ({ s with commands := s.commands ++ [Command.cancel id] } : Session).call? n =
      some c := hc
  have concluded := phased_conclude held (.error (.timeout c.goal.requestMethod (s.limit / 1000)))
  cases concluded with
  | stays phase known => exact .stays phase known
  | initializes was now known => exact .initializes was now known
  | shutsDown was now known caller => exact .shutsDown was now known caller
  | exits now closed pending cause => exact .exits now closed pending (by simpa using cause)

theorem phased_kill (s : Session) (n grace : Nat) : Phased s (s.kill n grace).1 := by
  unfold kill
  by_cases owned : (s.setStage n .killed).process.isSome = true
  · simp only [owned, if_true]
    exact .of_eq rfl rfl
  · simp only [owned]
    exact .of_eq rfl rfl

/-- A call that goes on moves the phase on in order. -/
theorem phased_resume (s : Session) (n : Nat) : Phased s (s.resume n).1 := by
  unfold resume
  split
  · exact .refl s
  rename_i c hc
  split
  · split
    · exact phased_askFor (.refl s) n _ _
    · exact phased_askFor (.refl s) n _ _
    · exact phased_finish (.refl s) n _
  · exact phased_conclude hc _
  · exact phased_conclude hc _
  · exact .of_eq rfl rfl
  · exact .of_eq rfl rfl
  · split
    · exact phased_conclude hc _
    · split
      · exact phased_timeOut hc _
      · exact .refl s
  · split
    · exact phased_finish (.refl s) n _
    · split
      · exact phased_kill s n _
      · exact .refl s
  · split
    · exact phased_finish (.refl s) n _
    · exact .refl s
  · exact .refl s
  · exact .refl s
  · exact .refl s

/-! ## Whatever happens -/

/-- Carrying out an ask touches nothing that the phases are about. -/
theorem shared_perform (s : Session) (n : Nat) (topic : Topic) (what : Ask) :
    (s.perform n topic what).1.phase = s.phase ∧
      (s.perform n topic what).1.capabilities = s.capabilities ∧
      (s.perform n topic what).1.process = s.process ∧
      (s.perform n topic what).1.flow = s.flow := by
  unfold perform
  cases what with
  | request | notify | subscribe =>
    simp only [applied_fst]
    exact ⟨rfl, rfl, rfl, rfl⟩

/-- The order to close ends a session. -/
theorem phased_serve (s : Session) : Phased s s.serve.1 := by
  unfold serve
  split
  · exact .refl s
  · split
    · split
      · exact .refl s
      · rw [applied_fst]
        exact .of_eq rfl rfl
    · rename_i command rest queue
      cases command with
      | ask n topic what =>
        obtain ⟨phase, known, -⟩ := shared_perform { s with commands := rest } n topic what
        exact .of_eq phase known
      | cancel id =>
        simp only [applied_fst]
        exact .of_eq rfl rfl
      | close =>
        simp only [applied_fst]
        refine .exits rfl rfl rfl (.inl ?_)
        rw [queue]
        exact List.mem_cons_self

/-- The end of the output ends a session without a process. -/
theorem phased_deliver (s : Session) : Phased s s.deliver.1 := by
  unfold deliver
  split
  · exact .refl s
  · split
    · rw [applied_fst]
      exact .of_eq rfl rfl
    · split
      · rename_i ended
        simp only [Moved.after, applied_fst]
        cases owned : s.process with
        | some process => exact .of_eq rfl rfl
        | none => exact .exits rfl rfl rfl (.inr ⟨owned, ended⟩)
      · exact .refl s

/-- Whatever happens to a session is one of the changes of its phase. -/
theorem phased_undergo (s : Session) (d : Deed) : Phased s (s.undergo d).1 := by
  cases d with
  | begin | abandon | release => exact .of_eq rfl rfl
  | act a =>
    cases a with
    | resume n => exact phased_resume s n
    | serve => exact phased_serve s
    | deliver => exact phased_deliver s
    | write =>
      simp only [undergo, step, write]
      split
      · exact .refl s
      · split <;> exact .of_eq rfl rfl
    | serverWrites bytes =>
      simp only [undergo, step, serverWrites]
      split <;> exact .of_eq rfl rfl
    | serverComplains bytes =>
      simp only [undergo, step, serverComplains]
      split <;> exact .of_eq rfl rfl
    | processExits =>
      simp only [undergo, step, processExits]
      split <;> exact .of_eq rfl rfl
    | serverCloses | serverEndsComplaints | serverStopsReading | advance => exact .of_eq rfl rfl

/-! ## Where a session ends -/

theorem process_undergo (s : Session) (d : Deed) : (s.undergo d).1.process = s.process := by
  cases d with
  | begin | abandon | release => rfl
  | act a =>
    have h := stepped s a
    simp only [undergo]
    generalize (s.step a).1 = s' at h ⊢
    cases h with
    | resumed n =>
      obtain ⟨_, _, _, _, _, frame⟩ := (byCall_resume s n).frame
      rw [frame]
    | @asked n topic what rest =>
      exact (shared_perform { s with commands := rest } n topic what).2.2.1
    | cancelled | received | closed => rw [applied_fst]
    | aside => rfl

/-- A call that has only the end ahead of it leaves the killing to the process watcher, if
there is one. -/
theorem commands_resume_of_leaving (hc : s.call? n = some c) (leaving : c.stage.isLeaving = true)
    (owned : s.process.isSome = true) : (s.resume n).1.commands = s.commands := by
  obtain ⟨goal, stage, number⟩ := c
  unfold resume
  rw [hc]
  cases stage with
  | answered topic answer =>
    cases topic with
    | main => cases leaving
    | exit => rfl
  | exiting deadline =>
    dsimp only
    split
    · rfl
    · split
      · have still : (s.setStage n .killed).process.isSome = true := owned
        simp only [kill, still, if_true]
        rfl
      · rfl
  | killed =>
    dsimp only
    split <;> rfl
  | ready | asking | waiting | finished | abandoned => cases leaving

theorem close_mem_resume (h : .close ∈ (s.resume n).1.commands) :
    .close ∈ s.commands ∨ s.process = none := by
  cases hc : s.call? n with
  | none =>
    rw [resume, hc] at h
    exact .inl h
  | some c =>
    rcases turned_resume hc with ⟨rests, -⟩ | ⟨stage, given, turn, turned⟩
    · rw [rests] at h
      exact .inl h
    · have left := turned.commands
      rw [left, List.mem_append] at h
      rcases h with before | now
      · exact .inl before
      · have silent : ∀ {outcome : Except ClientError Json} {given : List Command},
            Heard s c outcome given → .close ∉ given := by
          intro outcome given heard
          cases heard <;> simp
        cases turn with
        | goesOn leaving =>
          cases owned : s.process with
          | none => exact .inr rfl
          | some process =>
            have same := commands_resume_of_leaving hc leaving (by rw [owned]; rfl)
            rw [same] at left
            rw [List.self_eq_append_right.mp left] at now
            cases now
        | declines | awaits => cases now
        | asks | exits => simp at now
        | ends heard => exact absurd now (silent heard)
        | leaves heard => exact absurd now (by simp [silent heard])

/-- The order to close comes from the process watcher, or from a call on a session without
a process. -/
theorem close_mem_undergo {d : Deed} (h : .close ∈ (s.undergo d).1.commands) :
    .close ∈ s.commands ∨ d = .act .processExits ∨ s.process = none := by
  cases d with
  | begin | abandon | release => exact .inl h
  | act a =>
    have stepped := stepped s a
    simp only [undergo] at h
    generalize (s.step a).1 = s' at stepped h
    cases stepped with
    | resumed n => exact (close_mem_resume h).imp id .inr
    | @asked n topic what rest queue =>
      rw [(frame_perform { s with commands := rest } n topic what).1] at h
      exact .inl (queue ▸ List.mem_cons_of_mem _ h)
    | @cancelled id rest queue =>
      rw [applied_fst] at h
      exact .inl (queue ▸ List.mem_cons_of_mem _ h)
    | received =>
      rw [applied_fst] at h
      exact .inl h
    | closed _ _ queue =>
      rw [applied_fst] at h
      rcases queue with same | first
      · exact .inl (same ▸ h)
      · exact .inl (by simp [first])
    | aside _ queue =>
      rcases queue with rfl | ⟨-, rfl⟩
      · exact .inl h
      · exact .inr (.inl rfl)

theorem flow_serve (s : Session) : s.serve.1.flow = s.flow := by
  unfold serve
  split
  · rfl
  · split
    · split
      · rfl
      · rw [applied_fst]
    · rename_i command rest _
      cases command with
      | ask n topic what => exact (shared_perform { s with commands := rest } n topic what).2.2.2
      | cancel | close => simp only [applied_fst]

theorem noticed_endOutput (h : s.endOutput.flow = .noticed) : s.flow = .noticed := by
  simp only [endOutput] at h
  split at h
  · cases h
  · exact h

/-- The dispatcher notices the end of the output only once, and that ends a session without
a process. -/
theorem noticed_deliver (h : s.deliver.1.flow = .noticed) :
    s.flow = .noticed ∨ s.process.isSome = true ∨ s.deliver.1.phase = .exited := by
  unfold deliver at h ⊢
  split at h
  · exact .inl h
  · rename_i running
    split at h
    · rw [applied_fst] at h
      exact .inl h
    · split at h
      · rename_i nothing ended
        right
        cases owned : s.process with
        | some process => exact .inl rfl
        | none =>
          right
          rw [if_neg running]
          simp [nothing, ended, Moved.after, applied_fst]
      · exact .inl h

theorem noticed_undergo {d : Deed} (h : (s.undergo d).1.flow = .noticed) :
    s.flow = .noticed ∨ s.process.isSome = true ∨ (s.undergo d).1.phase = .exited := by
  cases d with
  | begin | abandon | release => exact .inl h
  | act a =>
    cases a with
    | deliver => exact noticed_deliver h
    | resume n =>
      obtain ⟨_, _, _, _, _, frame⟩ := (byCall_resume s n).frame
      simp only [undergo, step, frame] at h
      exact .inl h
    | serve => exact .inl ((flow_serve s).symm.trans h)
    | serverCloses => exact .inl (noticed_endOutput h)
    | write =>
      left
      simp only [undergo, step, write] at h
      split at h
      · exact h
      · split at h <;> exact h
    | serverWrites bytes =>
      left
      simp only [undergo, step, serverWrites] at h
      split at h
      · exact h
      · exact noticed_endOutput (s := { s with reader := _ }) h
    | serverComplains bytes =>
      left
      simp only [undergo, step, serverComplains] at h
      split at h <;> exact h
    | processExits =>
      left
      simp only [undergo, step, processExits] at h
      split at h <;> exact h
    | serverEndsComplaints | serverStopsReading | advance => exact .inl h

end Session

end LanguageClient
