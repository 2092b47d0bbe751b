import LanguageClient.Proofs.Session.Lifecycle

/-!
# Opening and closing documents

As long as nobody asks for its end, a session leaves the first phase by a handshake that
succeeds, and the second one only by exiting (`Tended`).  Calls that open and close documents
pass a gate: what they come to is the phase at which they go on, or the answer of the
dispatcher.  `Reports` says what such a call has found when it fails, and `Barred` what it
finds when the session had exited before it began.
-/

set_option autoImplicit false

namespace LanguageClient

/-- Whether a goal is to open or to close a document. -/
def Goal.isDocument : Goal → Bool
  | .openDocument _ | .closeDocument _ => true
  | _ => false

/-- The gate: documents are opened and closed in the initialized phase. -/
theorem Goal.opening_document {goal : Goal} (document : goal.isDocument = true) (phase : Phase) :
    (phase = .initialized ∧ ∃ method params, goal.opening phase = .ask (.notify method params)) ∨
      phase ≠ .initialized ∧
        ∃ operation, goal.opening phase = .finish (.error (.invalidState operation phase)) := by
  by_cases now : phase = .initialized
  · refine .inl ⟨now, ?_⟩
    cases goal with
    | openDocument | closeDocument => exact ⟨_, _, if_pos now⟩
    | request | notify | subscribe | handshake | requestShutdown | shutdown => cases document
  · refine .inr ⟨now, ?_⟩
    cases goal with
    | openDocument | closeDocument => exact ⟨_, if_neg now⟩
    | request | notify | subscribe | handshake | requestShutdown | shutdown => cases document

theorem Goal.isPlain_of_document {goal : Goal} (document : goal.isDocument = true) :
    goal.isPlain = true := by
  cases goal with
  | openDocument | closeDocument => rfl
  | request | notify | subscribe | handshake | requestShutdown | shutdown => cases document

/-- Nothing leads back to the first phase. -/
theorem Phase.Passes.past {p q : Phase} (h : Passes p q) (past : p ≠ .launched) : q ≠ .launched := by
  rintro rfl
  cases h
  exact past rfl

namespace Session

open Dispatcher

variable {s : Session} {n : Nat} {c : Call} {r : Except ClientError Json}

/-! ## Sessions whose end nobody asks for -/

theorem past_undergo (past : s.phase ≠ .launched) (d : Deed) :
    (s.undergo d).1.phase ≠ .launched :=
  (phased_undergo s d).passes.past past

/-- A handshake that succeeds ends the first phase. -/
theorem past_handshake {v : Json} (hc : s.call? n = some c) {outcome : Except ClientError Json}
    (done : (s.handshake n outcome).1.result? n = some (.ok v)) :
    (s.handshake n outcome).1.phase ≠ .launched := by
  have fails : ∀ e, (s.finish n (.error e)).1.result? n ≠ some (.ok v) := by
    intro e done
    have found : (s.finish n (.error e)).1.call? n = some _ := call?_setStage_self hc _
    rw [result?_of_call? found] at done
    cases done
  have past : ∀ t : Session, (t.advancePhase .launched .initialized).phase ≠ .launched := by
    intro t
    unfold advancePhase
    split
    · simp
    · assumption
  cases outcome with
  | error e => cases e <;> exact absurd done (fails _)
  | ok w =>
    cases read : InitializeResult.ofJson? w with
    | none =>
      simp only [handshake, read] at done
      exact absurd done (fails _)
    | some result =>
      simp only [handshake, read]
      exact past _

theorem past_resume {params : InitializeParams} {v : Json} (hc : s.call? n = some c)
    (goal : c.goal = .handshake params) (done : (s.resume n).1.result? n = some (.ok v)) :
    s.result? n = some (.ok v) ∨ (s.resume n).1.phase ≠ .launched := by
  rcases turned_resume hc with ⟨rests, -⟩ | ⟨stage, given, turn, turned⟩
  · rw [rests] at done
    exact .inl done
  · right
    have ended := done
    rw [result?_of_call? turned.call] at ended
    cases turn with
    | declines _ opens =>
      obtain rfl := Option.some.inj ended
      rw [goal] at opens
      simp only [Goal.opening, Opening.inPhase] at opens
      split at opens <;> cases opens
    | asks | exits | awaits | leaves => cases ended
    | @ends outcome _ given heard =>
      -- What a turn leaves of a call says nothing about the phase, so the turn is taken again.
      have concludes := resume_of_heard hc heard
      rw [goal] at concludes
      rw [concludes] at done ⊢
      exact past_handshake (s := { s with commands := s.commands ++ given }) hc done
    | goesOn _ on =>
      rcases on with leaving | ⟨-, exited⟩
      · rw [Stage.result?_of_isLeaving leaving] at ended
        cases ended
      · have still : (s.resume n).1.phase = .exited := exited_undergo exited (.act (.resume n))
        rw [still]
        simp

/-- What holds of a session whose end nobody has asked for. -/
structure Tended (s : Session) : Prop where
  goals : ∀ n c, s.call? n = some c → c.goal.ends = false
  awake : s.phase ≠ .shuttingDown
  greeted : ∀ n c params v, s.call? n = some c → c.goal = .handshake params →
    s.result? n = some (.ok v) → s.phase ≠ .launched
  afterExit : s.phase = .exited → s.Over

theorem tended_launch (language : String) (limit : Nat) (process : Option Nat) (clock : Nat) :
    (launch language limit process clock).Tended := by
  refine ⟨?_, by simp [launch], ?_, ?_⟩
  · intro n c hc
    cases hc
  · intro n c params v hc
    cases hc
  · intro exited
    cases exited

/-- Whatever happens, unless it is that somebody asks for the end. -/
theorem Tended.undergo (h : s.Tended) (accounted : s.Accounted) {d : Deed}
    (mild : ∀ n goal, d = .begin n goal → goal.ends = false) : (s.undergo d).1.Tended := by
  refine ⟨?_, ?_, ?_, over_undergo h.afterExit d⟩
  · intro n c' found
    rcases call?_of_undergo accounted found with ⟨c, hc, evolves⟩ | ⟨-, goal, begins, rfl⟩
    · rw [evolves.goal]
      exact h.goals n c hc
    · exact mild n goal begins
  · cases phased_undergo s d with
    | stays phase =>
      rw [phase]
      exact h.awake
    | initializes _ now | exits now =>
      rw [now]
      simp
    | shutsDown _ _ _ caller =>
      obtain ⟨n, c, hc, ends⟩ := caller
      rw [h.goals n c hc] at ends
      cases ends
  · intro n c' params v found goal done
    have early : ∀ c, s.call? n = some c → c.goal = .handshake params →
        s.result? n = some (.ok v) → (s.undergo d).1.phase ≠ .launched := by
      intro c hc goal was
      exact past_undergo (h.greeted n c params v hc goal was) d
    rcases call?_of_undergo accounted found with ⟨c, hc, evolves⟩ | ⟨-, goal', -, rfl⟩
    · have same : c.goal = .handshake params := evolves.goal.symm.trans goal
      rcases result_cases accounted done with was | rfl
      · exact early c hc same was
      · rcases past_resume hc same done with was | past
        · exact early c hc same was
        · exact past
    · rw [result?_of_call? found] at done
      cases done

/-! ## What a call with a document reports -/

/-- The stages of a call that opens or closes a document after the handshake.  When it has
failed the dispatcher is closed, or the session has exited. -/
inductive Reports (s : Session) : Stage → Prop
  | ready : Reports s .ready
  | asking : Reports s (.asking .main)
  | accepted : Reports s (.answered .main (.ok none))
  | refused (closed : s.dispatcher.closed = true) :
      Reports s (.answered .main (.error .sessionTerminated))
  | done {v : Json} : Reports s (.finished (.ok v))
  | failed (closed : s.dispatcher.closed = true) :
      Reports s (.finished (.error .sessionTerminated))
  | declined {operation : String} (exited : s.phase = .exited) :
      Reports s (.finished (.error (.invalidState operation .exited)))
  | abandoned : Reports s .abandoned

/-- What is closed stays closed, and an exit is final. -/
theorem Reports.lasts {stage : Stage} (h : s.Reports stage) (d : Deed) :
    (s.undergo d).1.Reports stage := by
  cases h with
  | ready => exact .ready
  | asking => exact .asking
  | accepted => exact .accepted
  | refused closed => exact .refused ((quiet_undergo s d).closed closed)
  | done => exact .done
  | failed closed => exact .failed ((quiet_undergo s d).closed closed)
  | declined exited => exact .declined (exited_undergo exited d)
  | abandoned => exact .abandoned

theorem Reports.turns {stage : Stage} {given : List Command} (h : s.Reports c.stage)
    (document : c.goal.isDocument = true) (tended : s.Tended) (past : s.phase ≠ .launched)
    (turn : Turn s n c stage given) : s.Reports stage := by
  cases turn with
  | declines _ opens =>
    rcases Goal.opening_document document s.phase with ⟨-, method, params, asks⟩ |
      ⟨other, operation, refuses⟩
    · cases asks.symm.trans opens
    · obtain rfl := Opening.finish.inj (refuses.symm.trans opens)
      -- Past the handshake and with no end asked for, what stops a document is the exit.
      have exited : s.phase = .exited := by
        have awake := tended.awake
        cases now : s.phase with
        | launched => exact absurd now past
        | initialized => exact absurd now other
        | shuttingDown => exact absurd now awake
        | exited => rfl
      rw [exited]
      exact .declined exited
  | asks => exact .asking
  | exits _ opens =>
    rcases Goal.opening_document document s.phase with ⟨-, method, params, asks⟩ |
      ⟨-, operation, refuses⟩
    · cases asks.symm.trans opens
    · cases refuses.symm.trans opens
  | awaits granted =>
    rw [granted] at h
    cases h
  | ends heard whole =>
    rw [whole (Goal.isPlain_of_document document)]
    cases heard with
    | refused at_ =>
      rw [at_] at h
      cases h with
      | refused closed => exact .failed closed
    | done => exact .done
    | completed at_ | timedOut at_ =>
      rw [at_] at h
      cases h
  | leaves _ shutdown =>
    rw [shutdown] at document
    cases document
  | goesOn leaving =>
    generalize c.stage = now at h leaving
    cases h <;> cases leaving

/-- A call that opens or closes a document. -/
def Switching (s : Session) (n : Nat) : Prop :=
  ∃ c, s.call? n = some c ∧ c.goal.isDocument = true ∧ s.Reports c.stage

theorem switching_begin (new : s.call? n = none) {goal : Goal} (document : goal.isDocument = true) :
    (s.begin n goal).Switching n := by
  refine ⟨.start goal, ?_, document, .ready⟩
  rw [call?_begin new, if_pos rfl]

theorem Switching.undergo (h : s.Switching n) (accounted : s.Accounted) (tended : s.Tended)
    (past : s.phase ≠ .launched) (d : Deed) : (s.undergo d).1.Switching n := by
  obtain ⟨c, hc, document, reports⟩ := h
  obtain ⟨c', hc', fares⟩ := fares_undergo accounted hc d
  cases fares with
  | stays => exact ⟨c, hc', document, reports.lasts d⟩
  | turns turn => exact ⟨_, hc', document, (reports.turns document tended past turn).lasts d⟩
  | @answered topic what asking opens refused =>
    refine ⟨_, hc', document, ?_⟩
    obtain rfl : topic = .main := by
      rw [asking] at reports
      cases reports
      rfl
    obtain ⟨phase, opens⟩ := opens rfl
    rcases Goal.opening_document document phase with ⟨-, method, params, asks⟩ |
      ⟨-, operation, refuses⟩
    · obtain rfl := Opening.ask.inj (asks.symm.trans opens)
      rw [Call.answered]
      cases told : s.dispatcher.reply (.notify method params) with
      | error e =>
        obtain ⟨rfl, closed⟩ := refused e (by simp) told
        exact .refused closed
      | ok number =>
        have none : number = .none := by
          rw [reply] at told
          cases outcome : (s.dispatcher.notify method params).result with
          | error e => simp [outcome, Except.map] at told
          | ok u => simpa [outcome, Except.map] using told.symm
        rw [none]
        exact .accepted
    · cases refuses.symm.trans opens
  | gone => exact ⟨_, hc', document, .abandoned⟩

/-- A document that cannot be opened or closed is reported with what is the matter. -/
theorem Switching.error {e : ClientError} (h : s.Switching n)
    (failed : s.result? n = some (.error e)) :
    e = .sessionTerminated ∧ s.dispatcher.closed = true ∨
      ∃ operation, e = .invalidState operation .exited ∧ s.phase = .exited := by
  obtain ⟨c, hc, -, reports⟩ := h
  rw [result?_of_call? hc] at failed
  generalize c.stage = stage at reports failed
  cases reports with
  | failed closed =>
    obtain rfl := Except.error.inj (Option.some.inj failed)
    exact .inl ⟨rfl, closed⟩
  | @declined operation exited =>
    obtain rfl := Except.error.inj (Option.some.inj failed)
    exact .inr ⟨operation, rfl, exited⟩
  | ready | asking | accepted | refused | done | abandoned => cases failed

/-! ## Behind the gate -/

/-- The stages of a call that would open or close a document in a session that has exited. -/
inductive Barred : Stage → Prop
  | ready : Barred .ready
  | declined {operation : String} : Barred (.finished (.error (.invalidState operation .exited)))
  | abandoned : Barred .abandoned

/-- A call that would open or close a document after the exit. -/
def Late (s : Session) (n : Nat) : Prop :=
  ∃ c, s.call? n = some c ∧ c.goal.isDocument = true ∧ Barred c.stage

theorem late_begin (new : s.call? n = none) {goal : Goal} (document : goal.isDocument = true) :
    (s.begin n goal).Late n := by
  refine ⟨.start goal, ?_, document, .ready⟩
  rw [call?_begin new, if_pos rfl]

theorem Late.undergo (h : s.Late n) (accounted : s.Accounted) (exited : s.phase = .exited)
    (d : Deed) : (s.undergo d).1.Late n := by
  obtain ⟨c, hc, document, barred⟩ := h
  obtain ⟨c', hc', fares⟩ := fares_undergo accounted hc d
  cases fares with
  | stays => exact ⟨c, hc', document, barred⟩
  | turns turn =>
    refine ⟨_, hc', document, ?_⟩
    have opening := Goal.opening_document document s.phase
    simp only [exited, reduceCtorEq, false_and, ne_eq, not_false_eq_true, true_and,
      false_or] at opening
    obtain ⟨operation, refuses⟩ := opening
    cases turn with
    | declines _ opens =>
      rw [exited] at opens
      obtain rfl := Opening.finish.inj (refuses.symm.trans opens)
      exact .declined
    | asks _ opens | exits _ opens =>
      rw [exited] at opens
      cases refuses.symm.trans opens
    | awaits at_ =>
      rw [at_] at barred
      cases barred
    | ends heard | leaves heard =>
      cases heard with
      | refused at_ | done at_ | completed at_ | timedOut at_ =>
        rw [at_] at barred
        cases barred
    | goesOn leaving =>
      generalize c.stage = now at barred leaving
      cases barred <;> cases leaving
  | answered asking =>
    rw [asking] at barred
    cases barred
  | gone => exact ⟨_, hc', document, .abandoned⟩

/-- After the exit the gate is what every such call finds. -/
theorem Late.result (h : s.Late n) (done : s.result? n = some r) :
    ∃ operation, r = .error (.invalidState operation .exited) := by
  obtain ⟨c, hc, -, barred⟩ := h
  rw [result?_of_call? hc] at done
  generalize c.stage = stage at barred done
  cases barred with
  | @declined operation => exact ⟨operation, (Option.some.inj done).symm⟩
  | ready | abandoned => cases done

end Session

end LanguageClient
