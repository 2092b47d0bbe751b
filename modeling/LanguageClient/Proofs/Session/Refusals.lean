import LanguageClient.Proofs.Session.Correlation

/-!
# What a closed dispatcher refuses

Once the dispatcher of a session is closed with no request left, nothing is pending and
nothing is sent any more: the session is `Over`.  A call that would have a message sent is
`Doomed` when it begins at such a time: all it can come to is the refusal.
-/

set_option autoImplicit false

namespace LanguageClient

/-- What a goal has the dispatcher send in every phase, if it sends anything. -/
def Goal.message? : Goal → Option Ask
  | .request method params => some (.request method params)
  | .notify method params => some (.notify method params)
  | _ => none

/-- The answer of a dispatcher to an ask. -/
def Dispatcher.reply (d : Dispatcher String) : Ask → Answer
  | .request method params => (d.request method params).result.map some
  | .notify method params => (d.notify method params).result.map fun _ => none
  | .subscribe method => (d.subscribe method method).result.map fun _ => none

/-- A closed dispatcher refuses every message. -/
theorem Dispatcher.reply_of_closed {d : Dispatcher String} (closed : d.closed = true) {what : Ask}
    (sends : ∀ method, what ≠ .subscribe method) : d.reply what = .error .sessionTerminated := by
  cases what with
  | request method params =>
    rw [reply, Dispatcher.request, if_pos closed]
    rfl
  | notify method params =>
    rw [reply, Dispatcher.notify, if_pos closed]
    rfl
  | subscribe method => exact absurd rfl (sends method)

namespace Session

open Dispatcher

variable {s s' : Session} {n : Nat} {c : Call} {r : Except ClientError Json}

/-! ## A session that is over -/

/-- A closed dispatcher with no request left. -/
structure Over (s : Session) : Prop where
  closed : s.dispatcher.closed = true
  pending : s.dispatcher.pending = []

/-- A closed dispatcher refuses every message, and nothing changes for it. -/
theorem perform_of_closed (closed : s.dispatcher.closed = true) (n : Nat) (topic : Topic)
    {what : Ask} (sends : ∀ method, what ≠ .subscribe method) :
    (s.perform n topic what).1 = s.answer n topic (.error .sessionTerminated) := by
  cases what with
  | request method params =>
    simp only [perform, Dispatcher.request, closed, if_true]
    rfl
  | notify method params =>
    simp only [perform, Dispatcher.notify, closed, if_true]
    rfl
  | subscribe method => exact absurd rfl (sends method)

theorem Over.perform (h : s.Over) (n : Nat) (topic : Topic) (what : Ask) :
    (s.perform n topic what).1.Over := by
  cases what with
  | request | notify =>
    rw [perform_of_closed h.closed n topic (by simp)]
    exact ⟨h.closed, h.pending⟩
  | subscribe method =>
    simp only [Session.perform, applied_fst, Dispatcher.subscribe]
    split <;> exact ⟨h.closed, h.pending⟩

theorem quiet_undergo (s : Session) (d : Deed) : Quiet s (s.undergo d).1 := by
  cases d with
  | act a => exact quiet_step s a
  | begin | abandon | release => exact ⟨fun _ => rfl, id⟩

/-- What is over stays over, and nothing is sent any more. -/
theorem Over.undergo (h : s.Over) (d : Deed) :
    (s.undergo d).1.Over ∧ (s.undergo d).1.sent = s.sent := by
  have quiet := quiet_undergo s d
  refine ⟨⟨quiet.closed h.closed, ?_⟩, quiet.sent (quiet.closed h.closed)⟩
  cases d with
  | begin | abandon | release => exact h.pending
  | act a =>
    have stepped := stepped s a
    simp only [Session.undergo]
    generalize (s.step a).1 = s' at stepped ⊢
    cases stepped with
    | resumed n =>
      obtain ⟨_, _, _, _, _, frame⟩ := (byCall_resume s n).frame
      rw [frame]
      exact h.pending
    | @asked n topic what rest =>
      have gone : ({ s with commands := rest } : Session).Over := ⟨h.closed, h.pending⟩
      exact (gone.perform n topic what).pending
    | @cancelled id => simp [applied_fst, Dispatcher.cancel, h.pending]
    | @received m =>
      rw [applied_fst]
      cases m with
      | response id outcome => simp [Dispatcher.receive, h.pending]
      | notification method params =>
        simp only [Dispatcher.receive]
        split <;> exact h.pending
      | request id method params => exact h.pending
    | closed =>
      rw [applied_fst]
      rfl
    | aside => exact h.pending

theorem Over.through (h : s.Over) (deeds : List Deed) :
    (s.through deeds).Over ∧ (s.through deeds).sent = s.sent := by
  induction deeds generalizing s with
  | nil => exact ⟨h, rfl⟩
  | cons d deeds ih =>
    obtain ⟨gone, sent⟩ := h.undergo d
    obtain ⟨still, same⟩ := ih gone
    exact ⟨still, same.trans sent⟩

/-! ## What becomes of a call -/

/-- Carrying out an ask answers its call and leaves the others alone. -/
theorem calls_perform (s : Session) (n : Nat) (topic : Topic) (what : Ask) :
    (s.perform n topic what).1.calls = (s.answer n topic (s.dispatcher.reply what)).calls := by
  unfold perform
  cases what with
  | request | notify | subscribe =>
    simp only [applied_fst]
    rfl

/-- What is to be sent is refused by a closed dispatcher only, or by one that finds that
nobody takes its frames and is closed for that. -/
theorem refused_perform {what : Ask} {e : ClientError} (n : Nat) (topic : Topic)
    (sends : ∀ method, what ≠ .subscribe method) (refused : s.dispatcher.reply what = .error e) :
    e = .sessionTerminated ∧ (s.perform n topic what).1.dispatcher.closed = true := by
  cases what with
  | request method params =>
    simp only [Dispatcher.reply, Dispatcher.request] at refused
    simp only [perform, applied_fst, Dispatcher.request]
    split at refused
    · rename_i closed
      exact ⟨(Except.error.inj refused).symm, by rw [if_pos closed]; exact closed⟩
    · split at refused
      · cases refused
      · rename_i open_ unheard
        exact ⟨(Except.error.inj refused).symm, by rw [if_neg open_, if_neg unheard]⟩
  | notify method params =>
    simp only [Dispatcher.reply, Dispatcher.notify] at refused
    simp only [perform, applied_fst, Dispatcher.notify]
    split at refused
    · rename_i closed
      exact ⟨(Except.error.inj refused).symm, by rw [if_pos closed]; exact closed⟩
    · split at refused
      · cases refused
      · rename_i open_ unheard
        exact ⟨(Except.error.inj refused).symm, by rw [if_neg open_, if_neg unheard]⟩
  | subscribe method => exact absurd rfl (sends method)

/-- What can become of a call when a session goes over into another: nothing, it goes on,
it gets the answer to its question, or its caller goes away. -/
inductive Fares (s s' : Session) (n : Nat) (c : Call) : Call → Prop
  | stays : Fares s s' n c c
  | turns {stage : Stage} {given : List Command} (turn : Turn s n c stage given) :
      Fares s s' n c { c with stage := stage }
  | answered {topic : Topic} {what : Ask} (asking : c.stage = .asking topic)
      (opens : topic = .main → ∃ phase, c.goal.opening phase = .ask what)
      (refused : ∀ e, (∀ method, what ≠ .subscribe method) →
        s.dispatcher.reply what = .error e →
        e = .sessionTerminated ∧ s'.dispatcher.closed = true) :
      Fares s s' n c (c.answered topic (s.dispatcher.reply what))
  | gone : Fares s s' n c { c with stage := .abandoned }

theorem fares_resume (hc : s.call? n = some c) (m : Nat) :
    ∃ c', (s.resume m).1.call? n = some c' ∧ Fares s (s.resume m).1 n c c' := by
  by_cases own : m = n
  · subst own
    rcases turned_resume hc with ⟨rests, -⟩ | ⟨stage, given, turn, turned⟩
    · rw [rests]
      exact ⟨c, hc, .stays⟩
    · exact ⟨_, turned.call, .turns turn⟩
  · obtain ⟨f, -, calls⟩ := (byCall_resume s m).calls
    refine ⟨c, ?_, .stays⟩
    rw [calls, if_neg (Ne.symm own), hc]

theorem fares_perform {m : Nat} {topic : Topic} {what : Ask} {rest : List Command}
    (h : s.Accounted) (hc : s.call? n = some c) (queue : s.commands = .ask m topic what :: rest) :
    ∃ c', (({ s with commands := rest } : Session).perform m topic what).1.call? n = some c' ∧
      Fares s (({ s with commands := rest } : Session).perform m topic what).1 n c c' := by
  have calls := calls_perform { s with commands := rest } m topic what
  have found : (({ s with commands := rest } : Session).perform m topic what).1.call? n =
      (s.answer m topic (s.dispatcher.reply what)).call? n := by
    rw [call?, calls]
    rfl
  rw [found, call?_answer]
  by_cases own : n = m
  · subst own
    rw [if_pos rfl, hc, Option.map_some]
    refine ⟨_, rfl, ?_⟩
    -- The caller may have gone away since it asked.
    rcases (h.owned n c hc).asked queue with gone | ⟨asking, -, -, opens⟩
    · rw [gone, if_neg (by simp)]
      exact .stays
    · rw [if_pos asking]
      refine .answered asking opens fun e sends refused => ?_
      exact refused_perform (s := { s with commands := rest }) n topic sends refused
  · rw [if_neg own]
    exact ⟨c, hc, .stays⟩

/-- Whatever happens to a session, a call that has begun fares in one of these ways. -/
theorem fares_undergo (h : s.Accounted) (hc : s.call? n = some c) (d : Deed) :
    ∃ c', (s.undergo d).1.call? n = some c' ∧ Fares s (s.undergo d).1 n c c' := by
  have aside : ∀ {t : Session}, t.calls = s.calls → ∃ c', t.call? n = some c' ∧ Fares s t n c c' := by
    intro t calls
    refine ⟨c, ?_, .stays⟩
    rw [call?, calls]
    exact hc
  cases d with
  | begin m goal =>
    refine ⟨c, ?_, .stays⟩
    simp only [Session.undergo]
    rw [call?_begin_or, hc, Option.some_or]
  | abandon m =>
    simp only [Session.undergo]
    rw [call?_abandon, hc]
    split
    · rw [Option.map_some]
      refine ⟨_, rfl, ?_⟩
      split
      · exact .stays
      · exact .gone
    · exact ⟨c, rfl, .stays⟩
  | release => exact aside rfl
  | act a =>
    have stepped := stepped s a
    simp only [Session.undergo]
    generalize (s.step a).1 = s' at stepped ⊢
    cases stepped with
    | resumed m => exact fares_resume hc m
    | asked queue => exact fares_perform h hc queue
    | cancelled | received | closed =>
      rw [applied_fst]
      exact aside rfl
    | aside => exact aside rfl

/-! ## Calls on a session that is over -/

/-- A call that would send something, begun when the dispatcher was closed. -/
structure Doomed (s : Session) (c : Call) : Prop where
  closed : s.dispatcher.closed = true
  sends : ∃ what, c.goal.message? = some what
  stage : c.stage = .ready ∨ c.stage = .asking .main ∨
    c.stage = .answered .main (.error .sessionTerminated) ∨
    c.stage = .finished (.error .sessionTerminated) ∨ c.stage = .abandoned

/-- What a goal that sends something asks for does not depend on the phase. -/
theorem opening_of_message? {goal : Goal} {what : Ask} (sends : goal.message? = some what)
    (phase : Phase) : goal.opening phase = .ask what := by
  cases goal <;> cases sends <;> rfl

theorem ne_subscribe_of_message? {goal : Goal} {what : Ask} (sends : goal.message? = some what)
    (method : String) : what ≠ .subscribe method := by
  cases goal <;> cases sends <;> simp

theorem isPlain_of_message? {goal : Goal} {what : Ask} (sends : goal.message? = some what) :
    goal.isPlain = true := by
  cases goal <;> cases sends <;> rfl

/-- A doomed call that goes on asks, or has its refusal. -/
theorem Doomed.turns {stage : Stage} {given : List Command} (h : s.Doomed c)
    (turn : Turn s n c stage given) :
    stage = .asking .main ∨ stage = .finished (.error .sessionTerminated) := by
  obtain ⟨what, sends⟩ := h.sends
  have opens := opening_of_message? sends s.phase
  have outcome : ∀ {outcome : Except ClientError Json} {given : List Command},
      Heard s c outcome given → outcome = .error .sessionTerminated := by
    intro outcome given heard
    cases heard with
    | refused at_ =>
      rcases h.stage with was | was | was | was | was <;> cases at_.symm.trans was
      rfl
    | done at_ | completed at_ | timedOut at_ =>
      rcases h.stage with was | was | was | was | was <;> cases at_.symm.trans was
  cases turn with
  | declines _ other | exits _ other => cases opens.symm.trans other
  | asks => exact .inl rfl
  | awaits at_ => rcases h.stage with was | was | was | was | was <;> cases at_.symm.trans was
  | ends heard whole =>
    rw [whole (isPlain_of_message? sends), outcome heard]
    exact .inr rfl
  | leaves _ shutdown =>
    rw [shutdown] at sends
    cases sends
  | goesOn leaving =>
    rcases h.stage with was | was | was | was | was <;> rw [was] at leaving <;> cases leaving

/-- Whatever happens, a doomed call gets nothing but its refusal. -/
theorem Doomed.undergo (h : s.Doomed c) (accounted : s.Accounted) (hc : s.call? n = some c)
    (d : Deed) : ∃ c', (s.undergo d).1.call? n = some c' ∧ (s.undergo d).1.Doomed c' := by
  obtain ⟨c', hc', fares⟩ := fares_undergo accounted hc d
  refine ⟨c', hc', ?_⟩
  have closed := (quiet_undergo s d).closed h.closed
  obtain ⟨what, sends⟩ := h.sends
  cases fares with
  | stays => exact ⟨closed, h.sends, h.stage⟩
  | turns turn =>
    refine ⟨closed, h.sends, ?_⟩
    rcases h.turns turn with asks | ended
    · exact .inr (.inl asks)
    · exact .inr (.inr (.inr (.inl ended)))
  | @answered topic asked asking opens =>
    have main : topic = .main := by
      rcases h.stage with was | was | was | was | was <;> cases asking.symm.trans was
      rfl
    subst main
    obtain ⟨phase, opens⟩ := opens rfl
    obtain rfl : what = asked := Opening.ask.inj ((opening_of_message? sends phase).symm.trans opens)
    have refused : s.dispatcher.reply what = .error .sessionTerminated :=
      Dispatcher.reply_of_closed h.closed (ne_subscribe_of_message? sends)
    refine ⟨closed, h.sends, .inr (.inr (.inl ?_))⟩
    rw [Call.answered, refused]
  | gone => exact ⟨closed, h.sends, .inr (.inr (.inr (.inr rfl)))⟩

theorem Doomed.through (h : s.Doomed c) (accounted : s.Accounted) (hc : s.call? n = some c)
    (deeds : List Deed) : ∃ c', (s.through deeds).call? n = some c' ∧ (s.through deeds).Doomed c' := by
  induction deeds generalizing s c with
  | nil => exact ⟨c, hc, h⟩
  | cons d deeds ih =>
    obtain ⟨c', hc', h'⟩ := h.undergo accounted hc d
    exact ih h' (accounted.undergo d) hc'

/-- The only result of a doomed call is that the session has been terminated. -/
theorem Doomed.result (h : s.Doomed c) (hc : s.call? n = some c) (done : s.result? n = some r) :
    r = .error .sessionTerminated := by
  rw [result?_of_call? hc] at done
  rcases h.stage with at_ | at_ | at_ | at_ | at_ <;> rw [at_] at done <;> cases done
  rfl

/-- A message that a caller wants sent when the dispatcher is closed is refused, and the
caller hears of it once its call gets its turns. -/
theorem refused_of_closed (h : s.Lively) (closed : s.dispatcher.closed = true)
    (new : s.call? n = none) {goal : Goal} {what : Ask} (sends : goal.message? = some what)
    (more : List Deed) :
    (∀ r, ((s.begin n goal).through more).result? n = some r → r = .error .sessionTerminated) ∧
      ((s.begin n goal).Attended n more →
        ((s.begin n goal).through more).result? n = some (.error .sessionTerminated)) := by
  have begun : (s.begin n goal).call? n = some (.start goal) := by
    rw [call?_begin new, if_pos rfl]
  have lively : (s.begin n goal).Lively := h.undergo (.begin n goal)
  have doomed : (s.begin n goal).Doomed (.start goal) := ⟨closed, ⟨what, sends⟩, .inl rfl⟩
  obtain ⟨c, hc, doomed⟩ := doomed.through lively.accounted begun more
  refine ⟨fun r => doomed.result hc, fun attended => ?_⟩
  obtain ⟨c₁, hc₁, ended⟩ := reach_of_attended lively begun attended
  obtain ⟨c₂, hc₂, stays⟩ := present_through lively.accounted begun (by simp [Call.start])
    attended.stays
  obtain rfl : c = c₁ := Option.some.inj (hc.symm.trans hc₁)
  obtain rfl : c = c₂ := Option.some.inj (hc.symm.trans hc₂)
  rw [result?_of_call? hc]
  rcases doomed.stage with at_ | at_ | at_ | at_ | at_
  · simp [at_, Stage.reach] at ended
  · simp [at_, Stage.reach] at ended
  · simp [at_, Stage.reach] at ended
  · rw [at_]
    rfl
  · exact absurd at_ stays

end Session

end LanguageClient
