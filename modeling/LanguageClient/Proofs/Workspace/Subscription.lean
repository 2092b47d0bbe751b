import LanguageClient.Proofs.Workspace.Queue
import LanguageClient.Proofs.Workspace.Reports

/-!
# The handler of a lane

A lane takes one handler, for diagnostics, and its courier waits for it before anything else is
asked for.  So nothing is sent to the server before the handler is in place, and it stays there.
-/

set_option autoImplicit false

namespace LanguageClient

namespace Session

open Dispatcher

variable {s s' : Session} {n : Nat}

/-! ## The handler -/

/-- Whether the only handler of a session, now or later, is the one for diagnostics. -/
structure Tuned (s : Session) : Prop where
  handlers : s.dispatcher.handlers = [] ∨
    s.dispatcher.handlers = [(publishMethod, publishMethod)]
  asks : ∀ n topic method, .ask n topic (.subscribe method) ∈ s.commands → method = publishMethod
  goals : ∀ n c method, s.call? n = some c → c.goal = .subscribe method → method = publishMethod

theorem subscribe_of_opening {goal : Goal} {phase : Phase} {method : String}
    (opens : goal.opening phase = .ask (.subscribe method)) : goal = .subscribe method := by
  cases goal with
  | subscribe m =>
    cases opens
    rfl
  | request | notify | requestShutdown | openDocument | closeDocument | handshake =>
    simp only [Goal.opening, Opening.inPhase] at opens
    try split at opens
    all_goals cases opens
  | shutdown grace => cases phase <;> cases opens

/-- What a call leaves behind asks for a handler only if this is its goal. -/
theorem subscribe_of_turn {c : Call} {stage : Stage} {given : List Command}
    (turn : Turn s n c stage given) {m : Nat} {topic : Topic} {method : String}
    (asked : .ask m topic (.subscribe method) ∈ given) : c.goal = .subscribe method := by
  have heard : ∀ {outcome : Except ClientError Json} {given : List Command},
      Heard s c outcome given → .ask m topic (.subscribe method) ∉ given := by
    intro outcome given heard
    cases heard <;> simp
  cases turn with
  | declines | awaits => cases asked
  | asks _ opens =>
    obtain ⟨-, -, rfl⟩ := Command.ask.inj (List.mem_singleton.mp asked)
    exact subscribe_of_opening opens
  | exits => simp [Ask.exit] at asked
  | ends told => exact absurd asked (heard told)
  | leaves told =>
    rcases List.mem_append.mp asked with before | exit
    · exact absurd before (heard told)
    · simp [Ask.exit] at exit
  | goesOn _ _ closes => rcases closes with rfl | rfl <;> simp at asked

theorem handlers_perform (s : Session) (n : Nat) (topic : Topic) (what : Ask) :
    (s.perform n topic what).1.dispatcher.handlers = s.dispatcher.handlers ∨
      ∃ method, what = .subscribe method ∧ s.dispatcher.handler? method = none ∧
        (s.perform n topic what).1.dispatcher.handlers =
          s.dispatcher.handlers ++ [(method, method)] := by
  cases what with
  | request method params =>
    left
    simp only [perform, applied_fst, request]
    split
    · rfl
    · split <;> rfl
  | notify method params =>
    left
    simp only [perform, applied_fst, notify]
    split
    · rfl
    · split <;> rfl
  | subscribe method =>
    simp only [perform, applied_fst, subscribe]
    cases free : s.dispatcher.handler? method with
    | some handler => exact .inl rfl
    | none => exact .inr ⟨method, rfl, free, rfl⟩

theorem commands_perform (s : Session) (n : Nat) (topic : Topic) (what : Ask) :
    (s.perform n topic what).1.commands = s.commands := by
  cases what <;> simp [perform, applied_fst, answer, updateCall]

/-- A step keeps a session tuned, and its handler. -/
theorem Tuned.step (h : s.Tuned) (a : Action) :
    (s.step a).1.Tuned ∧ (s.dispatcher.handlers ≠ [] →
      (s.step a).1.dispatcher.handlers = s.dispatcher.handlers) := by
  have later := later_step s a
  have goals : ∀ n c method, (s.step a).1.call? n = some c → c.goal = .subscribe method →
      method = publishMethod := by
    intro n c method found goal
    have same := later.goal n
    rw [found, Option.map_some, goal] at same
    obtain ⟨d, hd, is⟩ := Option.map_eq_some_iff.mp same.symm
    exact h.goals n d method hd is
  have step := stepped s a
  generalize (s.step a).1 = s' at step goals ⊢
  cases step with
  | resumed n =>
    obtain ⟨_, _, _, _, _, frame⟩ := (byCall_resume s n).frame
    have handlers : (s.resume n).1.dispatcher.handlers = s.dispatcher.handlers := by rw [frame]
    refine ⟨⟨handlers ▸ h.handlers, ?_, goals⟩, fun _ => handlers⟩
    intro m topic method asked
    cases hc : s.call? n with
    | none =>
      have same : s.resume n = (s, []) := by rw [resume, hc]
      rw [same] at asked
      exact h.asks m topic method asked
    | some c =>
      rcases turned_resume hc with ⟨same, -⟩ | ⟨stage, given, turn, turned⟩
      · rw [same] at asked
        exact h.asks m topic method asked
      · rw [turned.commands] at asked
        rcases List.mem_append.mp asked with before | new
        · exact h.asks m topic method before
        · exact h.goals n c method hc (subscribe_of_turn turn new)
  | @asked n topic what rest queue =>
    have asks : ∀ m about method, .ask m about (.subscribe method) ∈
        (perform { s with commands := rest } n topic what).1.commands → method = publishMethod := by
      intro m about method asked
      rw [commands_perform] at asked
      exact h.asks m about method (queue ▸ List.mem_cons_of_mem _ asked)
    rcases handlers_perform { s with commands := rest } n topic what with
      same | ⟨method, rfl, free, added⟩
    · exact ⟨⟨same ▸ h.handlers, asks, goals⟩, fun _ => same⟩
    · have it : method = publishMethod := by
        apply h.asks n topic method
        rw [queue]
        exact List.mem_cons_self
      subst it
      have none : s.dispatcher.handlers = [] := by
        rcases h.handlers with none | one
        · exact none
        · simp [handler?, one] at free
      refine ⟨⟨.inr ?_, asks, goals⟩, fun some => absurd none some⟩
      rw [added, none]
      rfl
  | @cancelled id rest queue =>
    obtain ⟨-, pending, next⟩ := cancel_spec s.dispatcher id
    rw [applied_fst] at goals ⊢
    have handlers : (s.dispatcher.cancel id).next.handlers = s.dispatcher.handlers := by rw [next]
    refine ⟨⟨handlers ▸ h.handlers, fun m topic method asked => ?_, goals⟩, fun _ => handlers⟩
    exact h.asks m topic method (queue ▸ List.mem_cons_of_mem _ asked)
  | @received m rest queue =>
    obtain ⟨-, pending, next⟩ := receive_spec s.dispatcher m
    rw [applied_fst] at goals ⊢
    have handlers : (s.dispatcher.receive m).next.handlers = s.dispatcher.handlers := by rw [next]
    exact ⟨⟨handlers ▸ h.handlers, h.asks, goals⟩, fun _ => handlers⟩
  | closed _ _ queue _ =>
    rw [applied_fst] at goals ⊢
    refine ⟨⟨h.handlers, fun m topic method asked => ?_, goals⟩, fun _ => rfl⟩
    rcases queue with same | same
    · exact h.asks m topic method (same ▸ asked)
    · exact h.asks m topic method (same ▸ List.mem_cons_of_mem _ asked)
  | aside _ queue =>
    refine ⟨⟨h.handlers, fun m topic method asked => ?_, goals⟩, fun _ => rfl⟩
    rcases queue with rfl | ⟨rfl, -⟩
    · exact h.asks m topic method asked
    · exact h.asks m topic method (by simpa using asked)

theorem Tuned.begin (h : s.Tuned) (n : Nat) {goal : Goal}
    (tuned : ∀ method, goal = .subscribe method → method = publishMethod) :
    (s.begin n goal).Tuned := by
  refine ⟨h.handlers, h.asks, fun m c method found is => ?_⟩
  rw [call?_begin_or] at found
  rcases Option.or_eq_some_iff.mp found with old | ⟨-, new⟩
  · exact h.goals m c method old is
  · split at new
    · obtain rfl := Option.some.inj new
      exact tuned method is
    · cases new

/-- A session that has no handler yet: it has sent nothing, and at most the one call is under
way that asks for the handler. -/
structure Unsubscribed (s : Session) : Prop where
  sent : s.sent = []
  commands : ∀ c ∈ s.commands, c = .close ∨ c = .ask 0 .main (.subscribe publishMethod)
  calls : s.calls = [] ∨ ∃ c, s.calls = [(0, c)] ∧ c.goal = .subscribe publishMethod ∧
    (c.stage = .ready ∨ c.stage = .asking .main)

theorem Unsubscribed.of_eq (h : s.Unsubscribed) (sent : s'.sent = s.sent)
    (commands : ∀ c ∈ s'.commands, c ∈ s.commands ∨ c = .close) (calls : s'.calls = s.calls) :
    s'.Unsubscribed := by
  refine ⟨sent.trans h.sent, fun c held => ?_, calls ▸ h.calls⟩
  rcases commands c held with before | close
  · exact h.commands c before
  · exact .inl close

theorem Unsubscribed.resume (h : s.Unsubscribed) (n : Nat) :
    (s.resume n).1.Unsubscribed ∧ ((s.resume n).1.calls = [] ↔ s.calls = []) := by
  rcases h.calls with none | ⟨c, one, goal, stage⟩
  · have absent : s.call? n = .none := by simp [call?, none]
    rw [Session.resume, absent]
    exact ⟨h, Iff.rfl⟩
  · by_cases first : n = 0
    · subst first
      have found : s.call? 0 = some c := by simp [call?, one]
      rcases stage with ready | asking
      · have opens : c.goal.opening s.phase = .ask (.subscribe publishMethod) := by
          rw [goal]
          rfl
        have asks : s.resume 0 = (s.askFor 0 .main (.subscribe publishMethod), []) := by
          simp [Session.resume, found, ready, opens]
        have calls : (s.askFor 0 .main (.subscribe publishMethod)).calls =
            [(0, { c with stage := .asking .main })] := by
          simp [askFor, setStage, updateCall, one]
        rw [asks]
        refine ⟨⟨h.sent, fun command held => ?_, .inr ⟨_, calls, goal, .inr rfl⟩⟩, ?_⟩
        · rcases List.mem_append.mp held with before | new
          · exact h.commands command before
          · exact .inr (List.mem_singleton.mp new)
        · simp [calls, one]
      · have rests : s.resume 0 = (s, []) := by simp [Session.resume, found, asking]
        rw [rests]
        exact ⟨h, Iff.rfl⟩
    · have absent : s.call? n = none := by simp [call?, one, Ne.symm first]
      rw [Session.resume, absent]
      exact ⟨h, Iff.rfl⟩

/-- The first that a session without a handler does is to take it. -/
theorem Unsubscribed.step (h : s.Unsubscribed) (a : Action)
    (free : (s.step a).1.dispatcher.handlers = []) :
    (s.step a).1.Unsubscribed ∧ ((s.step a).1.calls = [] ↔ s.calls = []) := by
  have step := stepped s a
  generalize (s.step a).1 = s' at step free ⊢
  cases step with
  | resumed n => exact h.resume n
  | @asked n topic what rest queue =>
    have asked := h.commands (.ask n topic what) (by simp [queue])
    rcases asked with close | same
    · cases close
    · obtain ⟨rfl, rfl, rfl⟩ := Command.ask.inj same
      simp only [perform, applied_fst, subscribe] at free
      split at free
      · rename_i taken
        simp only at free
        simp [handler?, free] at taken
      · simp at free
  | @cancelled id rest queue =>
    have cancels := h.commands (.cancel id) (by simp [queue])
    rcases cancels with close | asks
    · cases close
    · cases asks
  | @received m rest queue =>
    obtain ⟨silent, -⟩ := receive_spec s.dispatcher m
    rw [applied_fst]
    refine ⟨h.of_eq ?_ (fun _ => .inl) rfl, Iff.rfl⟩
    rw [silent, List.append_nil]
  | closed _ _ queue _ =>
    rw [applied_fst]
    refine ⟨h.of_eq ?_ (fun c held => .inl ?_) rfl, Iff.rfl⟩
    · rw [sentBy_close, List.append_nil]
    · rcases queue with same | same
      · exact same ▸ held
      · exact same ▸ List.mem_cons_of_mem _ held
  | aside _ queue =>
    refine ⟨h.of_eq rfl (fun c held => ?_) rfl, Iff.rfl⟩
    rcases queue with rfl | ⟨rfl, -⟩
    · exact .inl held
    · simpa using held

end Session

namespace Lane

variable {l l' : Lane}

/-! ## The courier -/

/-- What a step of the courier does to the session and lets be seen: it begins a call at
most, and reports nothing. -/
structure Asked (l : Lane) (m : Moved) : Prop where
  session : m.1.session = l.session ∨ ∃ n goal, m.1.session = l.session.begin n goal ∧
    ∀ method, goal = .subscribe method → method = publishMethod
  silent : m.2.filter Sighting.isReport = []

theorem Asked.rests (l : Lane) : Asked l (l, []) := ⟨.inl rfl, rfl⟩

theorem asked_call (l : Lane) {goal : Goal} (courier : Nat → Courier)
    (tuned : ∀ method, goal = .subscribe method → method = publishMethod) :
    Asked l (l.call goal courier) := ⟨.inr ⟨_, goal, rfl, tuned⟩, rfl⟩

theorem asked_giveUp (l : Lane) {r : LogRecord}
    (other : (Sighting.logged r).isReport = false) : Asked l (l.giveUp r) := by
  refine ⟨.inl rfl, ?_⟩
  simp [giveUp, other]

theorem asked_fail (l : Lane) (e : ClientError) : Asked l (l.fail e) := by
  have other : (Sighting.logged
      (.warn ("document activation failed: " ++ e.message))).isReport = false := by
    apply isReport_warn
    simp
  unfold fail
  split
  · exact asked_giveUp l other
  · refine ⟨.inl rfl, ?_⟩
    simp [other]

theorem asked_open (l : Lane) (item : Activation) : Asked l (l.open item) := by
  unfold Lane.open
  split
  · exact asked_fail l _
  · exact asked_call l _ (by simp)

theorem asked_switch (l : Lane) (item : Activation) : Asked l (l.switch item) := by
  unfold switch
  split
  · exact asked_open l item
  · split
    · exact asked_fail l _
    · exact asked_call l _ (by simp)

theorem asked_takeNext (l : Lane) : Asked l l.takeNext := by
  unfold takeNext
  split
  · rename_i item rest _
    have asked := asked_switch { l with queue := rest } item
    exact ⟨asked.session, asked.silent⟩
  · split <;> exact ⟨.inl rfl, rfl⟩

theorem asked_proceed (l : Lane) (result : Except ClientError Json) :
    Asked l (l.proceed result) := by
  have refused : ∀ (before : String) (e : ClientError),
      (Sighting.logged (refusal before e)).isReport = false := fun before e =>
    isReport_error _
  unfold proceed
  split
  · exact asked_call l _ (by simp)
  · exact asked_giveUp l (refused _ _)
  · exact asked_call l _ (by simp)
  · exact asked_giveUp l (refused _ _)
  · exact asked_giveUp l (refused _ _)
  · exact ⟨.inl rfl, rfl⟩
  · exact ⟨.inl rfl, rfl⟩
  · exact asked_open l _
  · exact asked_fail l _
  · exact asked_fail l _
  · exact .rests l
  · exact .rests l
  · exact .rests l

theorem asked_consume (l : Lane) : Asked l l.consume := by
  unfold consume
  split
  · exact asked_call l _ (by simp)
  · exact asked_takeNext l
  · exact .rests l
  · split
    · exact asked_proceed l _
    · exact .rests l

/-! ## Lanes -/

/-- Whether the handler for diagnostics is in place. -/
def Subscribed (l : Lane) : Prop :=
  l.session.dispatcher.handlers = [(publishMethod, publishMethod)]

instance (l : Lane) : Decidable l.Subscribed :=
  inferInstanceAs (Decidable (_ = _))

/-- The handler of a lane is the one for diagnostics, and before it is in place the courier
waits for it. -/
structure Tuned (l : Lane) : Prop where
  session : l.session.Tuned
  before : l.session.dispatcher.handlers = [] → l.session.Unsubscribed ∧
    (l.courier = .starting ∧ l.nextCall = 0 ∧ l.session.calls = [] ∨
      l.courier = .subscribing 0 ∧ l.session.calls ≠ [])

theorem Tuned.of_eq (h : l.Tuned) (session : l'.session = l.session)
    (courier : l'.courier = l.courier) (nextCall : l'.nextCall = l.nextCall) : l'.Tuned := by
  refine ⟨session ▸ h.session, ?_⟩
  rw [session, courier, nextCall]
  exact h.before

theorem tuned_start (language : String) (limit : Nat) (process : Option Nat) (clock : Nat)
    (greeting : InitializeParams) (folder : Path) :
    (start (.launch language limit process clock) greeting folder).Tuned := by
  refine ⟨⟨.inl rfl, fun n topic method asked => ?_, fun n c method found => ?_⟩, fun _ =>
    ⟨⟨rfl, fun c held => ?_, .inl rfl⟩, .inl ⟨rfl, rfl, rfl⟩⟩⟩
  · cases asked
  · cases found
  · cases held

theorem Tuned.consume (h : l.Tuned) : l.consume.1.Tuned := by
  have asked := (asked_consume l).session
  have handlers : l.consume.1.session.dispatcher.handlers = l.session.dispatcher.handlers := by
    rcases asked with same | ⟨n, goal, same, -⟩ <;> rw [same]
    rfl
  refine ⟨?_, fun free => ?_⟩
  · rcases asked with same | ⟨n, goal, same, tuned⟩
    · rw [same]
      exact h.session
    · rw [same]
      exact h.session.begin n tuned
  · obtain ⟨unsubscribed, ⟨courier, next, none⟩ | ⟨courier, some⟩⟩ := h.before (handlers ▸ free)
    · have calls : l.consume = l.call (.subscribe publishMethod) .subscribing := by
        simp [Lane.consume, courier]
      rw [calls]
      refine ⟨⟨unsubscribed.sent, unsubscribed.commands, .inr ⟨.start (.subscribe publishMethod), ?_, rfl, .inl rfl⟩⟩,
        .inr ⟨?_, ?_⟩⟩
      · simp [call, Session.begin, none, next]
      · simp [call, next]
      · simp [call, Session.begin]
    · have waits : l.session.result? 0 = none := by
        rcases unsubscribed.calls with none | ⟨c, one, -, ready | asking⟩
        · exact absurd none some
        · simp [Session.result?, Session.call?, one, Call.result?, ready]
        · simp [Session.result?, Session.call?, one, Call.result?, asking]
      have rests : l.consume = (l, []) := by
        simp [Lane.consume, courier, Courier.call?, waits]
      rw [rests]
      exact ⟨unsubscribed, .inr ⟨courier, some⟩⟩

/-- Whatever happens in a lane, it stays tuned, and a handler stays in place. -/
theorem Tuned.step (h : l.Tuned) (a : Action) :
    (l.step a).1.Tuned ∧ (l.Subscribed → (l.step a).1.Subscribed) := by
  cases a with
  | session a =>
    obtain ⟨tuned, kept⟩ := h.session.step a
    have stays : l.Subscribed → (l.session.step a).1.dispatcher.handlers =
        l.session.dispatcher.handlers := fun subscribed =>
      kept (by rw [subscribed]; exact List.cons_ne_nil _ _)
    refine ⟨⟨tuned, fun free => ?_⟩, fun subscribed => (stays subscribed).trans subscribed⟩
    have before : l.session.dispatcher.handlers = [] := by
      by_contra some
      rw [← kept some] at some
      exact some free
    obtain ⟨unsubscribed, courier⟩ := h.before before
    obtain ⟨after, calls⟩ := unsubscribed.step a free
    refine ⟨after, ?_⟩
    simp only [Lane.step, calls, ne_eq]
    exact courier
  | activate path text =>
    rcases l.activate_cases path text with ⟨-, out⟩ | ⟨-, ⟨-, out⟩ | ⟨-, out⟩⟩ <;>
      simp only [Lane.step, out] <;> exact ⟨h.of_eq rfl rfl rfl, id⟩
  | consume =>
    refine ⟨h.consume, fun subscribed => ?_⟩
    rcases (asked_consume l).session with same | ⟨n, goal, same, -⟩
    · simp only [Subscribed, Lane.step, same]
      exact subscribed
    · simp only [Subscribed, Lane.step, same]
      exact subscribed
  | close => exact ⟨h.of_eq rfl rfl rfl, id⟩
  | release => exact ⟨⟨⟨h.session.handlers, h.session.asks, h.session.goals⟩, fun free =>
      ⟨⟨(h.before free).1.sent, (h.before free).1.commands, (h.before free).1.calls⟩,
        (h.before free).2⟩⟩, id⟩
  | bidFarewell grace =>
    simp only [Lane.step, bidFarewell]
    split
    · rename_i ended
      refine ⟨⟨h.session.begin _ (by simp), fun free => ?_⟩, id⟩
      -- The courier has not ended before it has its handler.
      obtain ⟨-, ⟨courier, -⟩ | ⟨courier, -⟩⟩ := h.before free <;>
        cases courier.symm.trans ended.1
    · exact ⟨h, id⟩

theorem Tuned.subscribed (h : l.Tuned) (sends : l.session.sent ≠ []) : l.Subscribed := by
  rcases h.session.handlers with none | one
  · exact absurd (h.before none).1.sent sends
  · exact one

/-- Apart from its session a lane reports nothing. -/
theorem reports_step {a : Action} (aside : ∀ b, a ≠ .session b) :
    (l.step a).2.filter Sighting.isReport = [] := by
  cases a with
  | session a => exact absurd rfl (aside a)
  | activate path text =>
    simp only [step]
    cases (l.activate path text).2 with
    | ok queued => rfl
    | error e =>
      have other : (Sighting.logged (.warn "activation queue closed")).isReport = false := by
        apply isReport_warn
        simp
      simp [remarks, other]
  | consume => exact (asked_consume l).silent
  | close | bidFarewell | release => rfl

end Lane

end LanguageClient
