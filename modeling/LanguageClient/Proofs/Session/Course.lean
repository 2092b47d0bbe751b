import LanguageClient.Proofs.Session.Wire

/-!
# The course of a call

While the dispatcher is open, a session that is led by one call at a time goes through the
same course in every interleaving: the stage of the call decides which command is in the
queue and what has been sent since the call began.  `Course` lists the stages with what
belongs to them, `Engaged` says that a session is somewhere in the course of a call, and
`Idle` that no call is under way; every step keeps both unless it closes the dispatcher.
-/

set_option autoImplicit false

namespace LanguageClient

namespace Goal

/-- Whether a goal is one of those by which a session is led. -/
def isLed : Goal → Bool
  | .request .. | .requestShutdown => false
  | _ => true

/-- What a call with the goal first says to the server when it begins in a phase. -/
def said (goal : Goal) (phase : Phase) (id : Int) : List Message :=
  match goal.opening phase with
  | .ask what => what.messages id
  | .exit | .finish _ => []

variable {goal : Goal} {phase : Phase} {what : Ask}

theorem said_of_opens (opens : goal.opening phase = .ask what) (id : Int) :
    goal.said phase id = what.messages id := by
  rw [said, opens]

theorem inPhase_eq_ask {needed : Phase} {operation : String} {a : Ask}
    (opens : Opening.inPhase needed phase operation a = .ask what) : phase = needed ∧ what = a := by
  unfold Opening.inPhase at opens
  split at opens
  · rename_i now
    exact ⟨now, (Opening.ask.inj opens).symm⟩
  · cases opens

theorem subscribe_of_opens {method : String} (opens : goal.opening phase = .ask (.subscribe method)) :
    goal = .subscribe method := by
  cases goal with
  | subscribe m => simpa [opening] using opens
  | request | notify => cases opens
  | handshake | openDocument | closeDocument | requestShutdown => cases (inPhase_eq_ask opens).2
  | shutdown => cases phase <;> simp [opening, Ask.shutdown] at opens

/-- Only the handshake and the end of a session make requests. -/
theorem request_cases (led : goal.isLed = true) (opens : goal.opening phase = .ask what)
    {id k : Int} (number : what.number? id = some k) :
    (∃ params, goal = .handshake params ∧ phase = .launched) ∨
      ∃ grace, goal = .shutdown grace ∧ phase = .initialized := by
  cases goal with
  | request | requestShutdown => cases led
  | notify | subscribe =>
    simp only [opening, Opening.ask.injEq] at opens
    subst opens
    cases number
  | handshake params => exact .inl ⟨params, rfl, (inPhase_eq_ask opens).1⟩
  | openDocument | closeDocument =>
    obtain ⟨-, rfl⟩ := inPhase_eq_ask opens
    cases number
  | shutdown grace =>
    refine .inr ⟨grace, rfl, ?_⟩
    cases phase <;> simp [opening] at opens ⊢

/-- A call that makes no request is finished by the answer of the dispatcher. -/
theorem conclude_plain (led : goal.isLed = true) (opens : goal.opening phase = .ask what)
    {id : Int} (plain : what.number? id = none) (s : Session) (n : Nat)
    (outcome : Except ClientError Json) : s.conclude n goal outcome = s.finish n outcome := by
  cases goal with
  | request | requestShutdown => cases led
  | handshake params =>
    obtain ⟨-, rfl⟩ := inPhase_eq_ask opens
    cases plain
  | shutdown grace =>
    cases phase <;> simp only [opening, Opening.ask.injEq, reduceCtorEq] at opens
    subst opens
    cases plain
  | notify | subscribe | openDocument | closeDocument => rfl

/-- Only the end of a session begins with the order to exit. -/
theorem exit_cases (opens : goal.opening phase = .exit) : ∃ grace, goal = .shutdown grace := by
  cases goal with
  | shutdown grace => exact ⟨grace, rfl⟩
  | request | notify | subscribe => cases opens
  | handshake | openDocument | closeDocument | requestShutdown =>
    simp only [opening, Opening.inPhase] at opens
    split at opens <;> cases opens

end Goal

namespace Session

/-! ## Stages -/

/-- The stages of a call that has begun in a phase, when some messages had been sent, with
what belongs to them as long as the dispatcher is open. -/
inductive Course (n : Nat) (goal : Goal) (phase : Phase) (base : List Message) :
    Stage → View → Prop
  | ready {handlers : List (String × String)}
      (begins : ∀ result, goal.opening phase ≠ .finish result)
      (free : ∀ method, goal = .subscribe method → handlers = []) :
      Course n goal phase base .ready ⟨[], base, phase, handlers⟩
  | asking {what : Ask} {handlers : List (String × String)}
      (opens : goal.opening phase = .ask what)
      (free : ∀ method, goal = .subscribe method → handlers = []) :
      Course n goal phase base (.asking .main) ⟨[.ask n .main what], base, phase, handlers⟩
  | answered {what : Ask} {handlers : List (String × String)}
      (opens : goal.opening phase = .ask what) :
      Course n goal phase base (.answered .main (.ok (what.number? (nextNumber base))))
        ⟨[], base ++ goal.said phase (nextNumber base), phase, handlers⟩
  | waiting {what : Ask} {id : Int} {deadline : Nat} {handlers : List (String × String)}
      (opens : goal.opening phase = .ask what)
      (number : what.number? (nextNumber base) = some id) :
      Course n goal phase base (.waiting id deadline)
        ⟨[], base ++ goal.said phase (nextNumber base), phase, handlers⟩
  | finished {what : Ask} {v : Json} {handlers : List (String × String)}
      (opens : goal.opening phase = .ask what)
      (plain : what.number? (nextNumber base) = none) :
      Course n goal phase base (.finished (.ok v))
        ⟨[], base ++ goal.said phase (nextNumber base), phase, handlers⟩
  | greeted {params : InitializeParams} {v : Json} {handlers : List (String × String)}
      (handshake : goal = .handshake params) :
      Course n goal phase base (.finished (.ok v))
        ⟨[], base ++ goal.said phase (nextNumber base), .initialized, handlers⟩
  | refused {params : InitializeParams} {e : ClientError} {handlers : List (String × String)}
      (handshake : goal = .handshake params) :
      Course n goal phase base (.finished (.error e))
        ⟨[], base ++ goal.said phase (nextNumber base), phase, handlers⟩
  | leaving {grace : Nat} {now : Phase} {handlers : List (String × String)}
      (shutdown : goal = .shutdown grace) :
      Course n goal phase base (.asking .exit)
        ⟨[.ask n .exit .exit], base ++ goal.said phase (nextNumber base), now, handlers⟩
  | ordered {grace : Nat} {now : Phase} {handlers : List (String × String)}
      (shutdown : goal = .shutdown grace) :
      Course n goal phase base (.answered .exit (.ok none))
        ⟨[], base ++ goal.said phase (nextNumber base) ++ Ask.exit.messages 0, now, handlers⟩
  | exiting {grace deadline : Nat} {now : Phase} {handlers : List (String × String)}
      (shutdown : goal = .shutdown grace) :
      Course n goal phase base (.exiting deadline)
        ⟨[], base ++ goal.said phase (nextNumber base) ++ Ask.exit.messages 0, now, handlers⟩
  | killed {grace : Nat} {now : Phase} {handlers : List (String × String)}
      (shutdown : goal = .shutdown grace) :
      Course n goal phase base .killed
        ⟨[], base ++ goal.said phase (nextNumber base) ++ Ask.exit.messages 0, now, handlers⟩

/-- Whether the server has answered a request in the way that completes a handshake. -/
def Acknowledged (s : Session) (id : Int) : Prop :=
  ∃ v r, (id, Completion.success v) ∈ s.settled ∧ InitializeResult.ofJson? v = some r

/-- A session in the course of a call, every other call of which is over. -/
structure Engaged (s : Session) (n : Nat) (goal : Goal) (phase : Phase) (base : List Message) :
    Prop where
  led : goal.isLed = true
  call : ∃ c, s.call? n = some c ∧ c.goal = goal ∧ Course n goal phase base c.stage s.view
  others : ∀ m c, m ≠ n → s.call? m = some c → c.result?.isSome = true
  numbered : s.dispatcher.nextId = nextNumber s.sent
  awake : s.phase ≠ .exited
  acknowledged : ∀ params, goal = .handshake params → s.phase ≠ phase →
    s.Acknowledged (nextNumber base)

/-- A session in a phase, after some messages, with no call under way. -/
structure Idle (s : Session) (phase : Phase) (sent : List Message) : Prop where
  calls : ∀ m c, s.call? m = some c → c.result?.isSome = true
  asks : s.asks = []
  sent : s.sent = sent
  phase : s.phase = phase
  numbered : s.dispatcher.nextId = nextNumber s.sent
  awake : s.phase ≠ .exited

variable {s s' : Session} {n : Nat} {goal : Goal} {phase : Phase} {base : List Message}

/-! ## Calls that go on -/

theorem view_askFor (s : Session) (n : Nat) (topic : Topic) (what : Ask) :
    (s.askFor n topic what).view = { s.view with asks := s.asks ++ [.ask n topic what] } := by
  simp [view, askFor, asks, setStage, updateCall, Command.isAsk]

theorem view_cancel (s : Session) (id : Int) :
    ({ s with commands := s.commands ++ [Command.cancel id] } : Session).view = s.view := by
  simp [view, asks, Command.isAsk]

/-- A call that moves on in its course keeps the session engaged. -/
theorem Engaged.byCall (h : s.Engaged n goal phase base) (step : ByCall n s s')
    (call : ∃ c, s'.call? n = some c ∧ c.goal = goal ∧ Course n goal phase base c.stage s'.view)
    (awake : s'.phase ≠ .exited)
    (acknowledged : ∀ params, goal = .handshake params → s'.phase ≠ phase →
      s.Acknowledged (nextNumber base)) : s'.Engaged n goal phase base := by
  -- The frame leaves the numbers of requests and what has ended as they were.
  obtain ⟨⟨calls, commands, now, capabilities, killing, frame⟩, f, -, only⟩ := step
  refine ⟨h.led, call, fun m c other hc => ?_, ?_, awake, fun params is changed => ?_⟩
  · rw [only, if_neg other] at hc
    exact h.others m c other hc
  · rw [frame]
    exact h.numbered
  · obtain ⟨v, r, ended, read⟩ := acknowledged params is changed
    exact ⟨v, r, by rw [frame]; exact ended, read⟩

/-- Nothing changes for a call while nothing that calls depend on changes. -/
theorem Engaged.same (h : s.Engaged n goal phase base) (same : Same s s')
    (settled : s.settled <+: s'.settled) : s'.Engaged n goal phase base := by
  have now : s'.phase = s.phase := congrArg View.phase same.view
  have sent : s'.sent = s.sent := congrArg View.sent same.view
  refine ⟨h.led, ?_, fun m c other hc => ?_, ?_, ?_, fun params is changed => ?_⟩
  · rw [same.view, same.call?]
    exact h.call
  · exact h.others m c other (same.call? m ▸ hc)
  · rw [same.nextId, sent]
    exact h.numbered
  · rw [now]
    exact h.awake
  · obtain ⟨v, r, ended, read⟩ := h.acknowledged params is (now ▸ changed)
    exact ⟨v, r, settled.subset ended, read⟩

theorem Engaged.setStage {c : Call} {stage : Stage} (h : s.Engaged n goal phase base)
    (hc : s.call? n = some c) (is : c.goal = goal)
    (course : Course n goal phase base stage s.view) :
    (s.setStage n stage).Engaged n goal phase base :=
  h.byCall (byCall_setStage s n stage) ⟨_, call?_setStage_self hc stage, is, course⟩ h.awake
    h.acknowledged

theorem Engaged.awaitAt {c : Call} {stage : Stage} (h : s.Engaged n goal phase base)
    (hc : s.call? n = some c) (is : c.goal = goal)
    (course : Course n goal phase base stage s.view) :
    (s.awaitAt n stage).Engaged n goal phase base :=
  h.byCall (byCall_awaitAt s n stage) ⟨_, call?_awaitAt_self hc stage, is, course⟩ h.awake
    h.acknowledged

theorem Engaged.kill {c : Call} (h : s.Engaged n goal phase base) (hc : s.call? n = some c)
    (is : c.goal = goal) (course : Course n goal phase base .killed s.view) (grace : Nat) :
    (s.kill n grace).1.Engaged n goal phase base := by
  have held := call?_setStage_self hc .killed
  have facts : (s.kill n grace).1.call? n = (s.setStage n .killed).call? n ∧
      (s.kill n grace).1.view = s.view ∧ (s.kill n grace).1.phase = s.phase := by
    unfold Session.kill
    by_cases owned : (s.setStage n .killed).process.isSome = true
    · simp only [owned, if_true]
      exact ⟨rfl, rfl, rfl⟩
    · simp only [owned]
      refine ⟨rfl, ?_, rfl⟩
      simp [view, asks, Session.setStage, updateCall, Command.isAsk]
  obtain ⟨call, view, now⟩ := facts
  refine h.byCall (byCall_kill s n grace) ⟨_, call.trans held, is, ?_⟩ (now ▸ h.awake) ?_
  · rw [view]
    exact course
  · rw [now]
    exact h.acknowledged

/-- The order to exit keeps the session engaged in its end, whatever phase it is then in. -/
theorem Engaged.leave {c : Call} {grace : Nat} {now : Phase} (h : s.Engaged n goal phase base)
    (hc : s.call? n = some c) (is : c.goal = goal) (shutdown : goal = .shutdown grace)
    (asks : s.asks = []) (sent : s.sent = base ++ goal.said phase (nextNumber base))
    (awake : now ≠ .exited) :
    (({ s with phase := now } : Session).askFor n .exit .exit).Engaged n goal phase base := by
  have moved : ByCall n s { s with phase := now } := .of_calls_eq rfl ⟨_, _, _, _, rfl⟩
  have view : (({ s with phase := now } : Session).askFor n .exit .exit).view =
      ⟨[.ask n .exit .exit], base ++ goal.said phase (nextNumber base), now,
        s.dispatcher.handlers⟩ := by
    have none : ({ s with phase := now } : Session).asks = [] := asks
    rw [view_askFor, none]
    simp [Session.view, sent]
  have held : ({ s with phase := now } : Session).call? n = some c := hc
  refine h.byCall (moved.trans (byCall_askFor _ n .exit .exit))
    ⟨_, call?_askFor_self held .exit .exit, is, ?_⟩ awake ?_
  · rw [view]
    exact .leaving shutdown
  · intro params handshake
    rw [shutdown] at handshake
    cases handshake

/-- A result that can be read makes a launched session an initialized one. -/
theorem handshake_ok {v : Json} {r : InitializeResult} (launched : s.phase = .launched)
    (read : InitializeResult.ofJson? v = some r) :
    (s.handshake n (.ok v)).1 =
      ({ s with
        phase := .initialized
        capabilities := s.capabilities <|> some (Capabilities.ofJson r.capabilities) } :
          Session).setStage n (.finished (.ok r.toJson)) := by
  simp [handshake, read, advancePhase, launched, finish]

/-- Whatever its outcome, a handshake goes through its course. -/
theorem Engaged.handshake {c : Call} {params : InitializeParams}
    {handlers : List (String × String)} (h : s.Engaged n goal .launched base)
    (hc : s.call? n = some c) (is : c.goal = goal) (greets : goal = .handshake params)
    (hv : s.view = ⟨[], base ++ goal.said .launched (nextNumber base), .launched, handlers⟩)
    (outcome : Except ClientError Json)
    (ended : ∀ v, outcome = .ok v → (nextNumber base, Completion.success v) ∈ s.settled) :
    (s.handshake n outcome).1.Engaged n goal .launched base := by
  have refuse : ∀ e, (s.finish n (.error e)).1.Engaged n goal .launched base := by
    intro e
    refine h.setStage hc is ?_
    rw [hv]
    exact .refused greets
  cases outcome with
  | error e => cases e <;> exact refuse _
  | ok v =>
    cases read : InitializeResult.ofJson? v with
    | none =>
      have result : s.handshake n (.ok v) =
          s.finish n (.error (.serialization "initialize result")) := by
        simp [Session.handshake, read]
      rw [result]
      exact refuse _
    | some r =>
      have launched : s.phase = .launched := congrArg View.phase hv
      have asks : s.asks = [] := congrArg View.asks hv
      have sent : s.sent = base ++ goal.said .launched (nextNumber base) := congrArg View.sent hv
      have moved := byCall_handshake s n (.ok v)
      rw [handshake_ok launched read] at moved ⊢
      have held : ({ s with
          phase := .initialized
          capabilities := s.capabilities <|> some (Capabilities.ofJson r.capabilities) } :
            Session).call? n = some c := hc
      refine h.byCall moved ⟨_, call?_setStage_self held _, is, ?_⟩ (by simp [Session.setStage,
        updateCall]) fun _ _ _ => ⟨v, r, ended v rfl, read⟩
      have course : Course n goal .launched base (.finished (.ok r.toJson))
          ⟨s.asks, s.sent, .initialized, s.dispatcher.handlers⟩ := by
        rw [asks, sent]
        exact .greeted greets
      exact course

/-- Whatever the outcome of its request, a call goes on in its course. -/
theorem Engaged.conclude {c : Call} {what : Ask} {id : Int} {handlers : List (String × String)}
    (h : s.Engaged n goal phase base) (hc : s.call? n = some c) (is : c.goal = goal)
    (opens : goal.opening phase = .ask what) (number : what.number? (nextNumber base) = some id)
    (hv : s.view = ⟨[], base ++ goal.said phase (nextNumber base), phase, handlers⟩)
    (outcome : Except ClientError Json)
    (ended : ∀ v, outcome = .ok v → (nextNumber base, Completion.success v) ∈ s.settled) :
    (s.conclude n goal outcome).1.Engaged n goal phase base := by
  have asks : s.asks = [] := congrArg View.asks hv
  have sent : s.sent = base ++ goal.said phase (nextNumber base) := congrArg View.sent hv
  have now : s.phase = phase := congrArg View.phase hv
  rcases Goal.request_cases h.led opens number with ⟨params, greets, rfl⟩ | ⟨grace, leaves, rfl⟩
  · have concludes : s.conclude n goal outcome = s.handshake n outcome := by
      rw [greets]
      rfl
    rw [concludes]
    exact h.handshake hc is greets hv outcome ended
  · -- The end asks for the exit whatever came of its request; only the phase differs.
    cases outcome with
    | ok v =>
      have concludes : (s.conclude n goal (.ok v)).1 =
          ({ s with phase := .shuttingDown } : Session).askFor n .exit .exit := by
        rw [leaves]
        simp [Session.conclude, advancePhase, now]
      rw [concludes]
      exact h.leave hc is leaves asks sent (by simp)
    | error e =>
      have concludes : (s.conclude n goal (.error e)).1 =
          ({ s with phase := s.phase } : Session).askFor n .exit .exit := by
        rw [leaves]
        rfl
      rw [concludes]
      exact h.leave hc is leaves asks sent h.awake

/-- The request of a call is given up like one that has failed. -/
theorem Engaged.timeOut {c : Call} {what : Ask} {id : Int} {handlers : List (String × String)}
    (h : s.Engaged n goal phase base) (hc : s.call? n = some c) (is : c.goal = goal)
    (opens : goal.opening phase = .ask what) (number : what.number? (nextNumber base) = some id)
    (hv : s.view = ⟨[], base ++ goal.said phase (nextNumber base), phase, handlers⟩) :
    (s.timeOut n goal id).1.Engaged n goal phase base := by
  have moved : ByCall n s { s with commands := s.commands ++ [Command.cancel id] } :=
    .of_calls_eq rfl ⟨_, _, _, _, rfl⟩
  have given : ({ s with commands := s.commands ++ [Command.cancel id] } : Session).Engaged n goal
      phase base := by
    obtain ⟨d, hd, dis, course⟩ := h.call
    refine h.byCall moved ⟨d, hd, dis, ?_⟩ h.awake h.acknowledged
    rw [view_cancel]
    exact course
  exact given.conclude hc is opens number ((view_cancel s id).trans hv) _ (by simp)

theorem mem_settled_of_completion? {id : Int} {completion : Completion}
    (found : s.completion? id = some completion) : (id, completion) ∈ s.settled := by
  obtain ⟨⟨k, c⟩, hk, rfl⟩ := Option.map_eq_some_iff.mp found
  have same : k = id := by simpa using List.find?_some hk
  exact same ▸ List.mem_of_find?_eq_some hk

/-- A call that goes on keeps to its course. -/
theorem Engaged.resume (h : s.Engaged n goal phase base) :
    (s.resume n).1.Engaged n goal phase base := by
  obtain ⟨⟨g, stage, number⟩, hc, is, course⟩ := h.call
  dsimp only at is course
  subst is
  generalize hv : s.view = v at course
  have now : s.phase = v.phase := congrArg View.phase hv
  have asks : s.asks = v.asks := congrArg View.asks hv
  have sent : s.sent = v.sent := congrArg View.sent hv
  unfold Session.resume
  rw [hc]
  -- The stage decides what the call does next, and the course what it finds.
  cases course with
  | ready begins free =>
    dsimp only at now asks sent ⊢
    rw [now]
    cases opens : g.opening phase with
    | ask what =>
      refine h.byCall (byCall_askFor s n .main what) ⟨_, call?_askFor_self hc .main what, rfl, ?_⟩
        h.awake h.acknowledged
      rw [view_askFor, asks, hv]
      exact .asking opens free
    | exit =>
      obtain ⟨grace, shutdown⟩ := Goal.exit_cases opens
      have nothing : s.sent = base ++ g.said phase (nextNumber base) := by
        simp [sent, Goal.said, opens]
      exact h.leave hc rfl shutdown asks nothing h.awake
    | finish result => exact absurd opens (begins result)
  | asking => exact h
  | @answered what handlers opens =>
    cases number : what.number? (nextNumber base) with
    | none =>
      simp only [Goal.conclude_plain h.led opens number]
      refine h.setStage hc rfl ?_
      rw [hv]
      exact .finished opens number
    | some id =>
      refine h.awaitAt hc rfl ?_
      rw [hv]
      exact .waiting opens number
  | @waiting what id deadline handlers opens number =>
    dsimp only
    cases found : s.completion? id with
    | some completion =>
      refine h.conclude hc rfl opens number hv _ fun v success => ?_
      have own := Ask.number?_eq number
      have settled := mem_settled_of_completion? found
      cases completion with
      | success result =>
        obtain rfl : result = v := Except.ok.inj success
        rw [← own]
        exact settled
      | failure | terminated | dropped => cases success
    | none =>
      dsimp only
      split
      · exact h.timeOut hc rfl opens number hv
      · exact h
  | finished => exact h
  | greeted => exact h
  | refused => exact h
  | leaving => exact h
  | @ordered grace now handlers shutdown =>
    refine h.awaitAt hc rfl ?_
    rw [hv]
    exact .exiting shutdown
  | @exiting grace deadline now handlers shutdown =>
    dsimp only
    rw [if_neg h.awake]
    split
    · refine h.kill hc rfl ?_ _
      rw [hv]
      exact .killed shutdown
    · exact h
  | killed =>
    dsimp only
    rw [if_neg h.awake]
    exact h

/-! ## Commands that are carried out -/

/-- A call whose ask is carried out goes on with the answer. -/
theorem Engaged.answered {topic : Topic} {what : Ask} {rest : List Command} {c : Call}
    (h : s.Engaged n goal phase base) (hc : s.call? n = some c) (is : c.goal = goal)
    (asking : c.stage = .asking topic)
    (free : ∀ method, what = .subscribe method → s.dispatcher.handlers = [])
    (course : ∀ handlers,
      Course n goal phase base (.answered topic (.ok (what.number? (nextNumber s.sent))))
        ⟨rest.filter Command.isAsk, s.sent ++ what.messages (nextNumber s.sent), s.phase,
          handlers⟩)
    (live : (({ s with commands := rest } : Session).perform n topic what).1.dispatcher.closed =
      false) :
    (({ s with commands := rest } : Session).perform n topic what).1.Engaged n goal phase base := by
  obtain ⟨calls, asks, sent, now, settled, numbered⟩ := performed_of_live live free
  generalize (({ s with commands := rest } : Session).perform n topic what).1 = s' at *
  dsimp only at calls asks sent now settled numbered
  rw [h.numbered] at calls sent
  have looked : ∀ m, s'.call? m = (({ s with commands := rest } : Session).answer n topic
      (.ok (what.number? (nextNumber s.sent)))).call? m := by
    intro m
    rw [call?, calls, call?]
  have held : ({ s with commands := rest } : Session).call? n = some c := hc
  obtain ⟨d, hd, dis, stage⟩ :=
    call?_answer_self held asking (.ok (what.number? (nextNumber s.sent)))
  refine ⟨h.led, ⟨d, (looked n).trans hd, dis.trans is, ?_⟩, ?_, numbered h.numbered, ?_, ?_⟩
  · rw [stage, view, asks, sent, now]
    exact course _
  · intro m e other he
    rw [looked, call?_answer_ne other] at he
    exact h.others m e other he
  · rw [now]
    exact h.awake
  · intro params greets changed
    rw [now] at changed
    obtain ⟨v, r, ended, read⟩ := h.acknowledged params greets changed
    exact ⟨v, r, settled ▸ ended, read⟩

/-- Carrying out what the call has asked for keeps to its course. -/
theorem Engaged.perform {m : Nat} {topic : Topic} {what : Ask} {rest : List Command}
    (h : s.Engaged n goal phase base) (queue : s.commands = .ask m topic what :: rest)
    (live : (({ s with commands := rest } : Session).perform m topic what).1.dispatcher.closed =
      false) :
    (({ s with commands := rest } : Session).perform m topic what).1.Engaged n goal phase base := by
  obtain ⟨c, hc, is, course⟩ := h.call
  generalize hst : c.stage = stage at course
  generalize hv : s.view = v at course
  have asked : .ask m topic what :: rest.filter Command.isAsk = v.asks := by
    rw [← hv, view, asks, queue]
    rfl
  have now : s.phase = v.phase := congrArg View.phase hv
  have sent : s.sent = v.sent := congrArg View.sent hv
  have known : s.dispatcher.handlers = v.handlers := congrArg View.handlers hv
  -- Only in two stages is there a command of the call in the queue, and it is the only one.
  cases course with
  | asking opens free =>
    obtain ⟨⟨rfl, rfl, rfl⟩, none⟩ : (m = n ∧ topic = .main ∧ what = _) ∧ rest.filter _ = [] := by
      simpa using asked
    refine h.answered hc is hst ?_ (fun handlers => ?_) live
    · intro method subscribes
      rw [known]
      exact free method (Goal.subscribe_of_opens (subscribes ▸ opens))
    · rw [none, sent, now, ← Goal.said_of_opens opens]
      exact .answered opens
  | leaving shutdown =>
    obtain ⟨⟨rfl, rfl, rfl⟩, none⟩ :
        (m = n ∧ topic = .exit ∧ what = .exit) ∧ rest.filter _ = [] := by
      simpa using asked
    refine h.answered hc is hst ?_ (fun handlers => ?_) live
    · intro method subscribes
      cases subscribes
    · rw [none, sent]
      exact .ordered shutdown
  | ready | answered | waiting | finished | greeted | refused | ordered | exiting | killed =>
    cases asked

/-- A step that leaves the dispatcher open keeps to the course of the call. -/
theorem Engaged.step (h : s.Engaged n goal phase base) (a : Action)
    (live : (s.step a).1.dispatcher.closed = false) :
    (s.step a).1.Engaged n goal phase base := by
  rcases step_cases s a live with same | ⟨m, rfl⟩ | ⟨m, topic, what, rest, queue, performed⟩
  · exact h.same same (later_step s a).settled
  · by_cases own : m = n
    · subst own
      exact h.resume
    · rw [Session.step, resume_of_ended fun c => h.others m c own]
      exact h
  · rw [performed] at live ⊢
    exact h.perform queue live

/-! ## Between calls -/

/-- With no call under way nothing that calls depend on changes while the dispatcher is
open. -/
theorem Idle.same_step {sent : List Message} (h : s.Idle phase sent) (a : Action)
    (live : (s.step a).1.dispatcher.closed = false) : Same s (s.step a).1 := by
  rcases step_cases s a live with same | ⟨m, rfl⟩ | ⟨m, topic, what, rest, queue, -⟩
  · exact same
  · rw [Session.step, resume_of_ended (h.calls m)]
    exact .refl s
  · have queued : .ask m topic what ∈ s.asks := by simp [Session.asks, queue, Command.isAsk]
    rw [h.asks] at queued
    cases queued

theorem Idle.same {sent : List Message} (h : s.Idle phase sent) (same : Same s s') :
    s'.Idle phase sent := by
  have asks : s'.asks = s.asks := congrArg View.asks same.view
  have said : s'.sent = s.sent := congrArg View.sent same.view
  have now : s'.phase = s.phase := congrArg View.phase same.view
  refine ⟨fun m c hc => h.calls m c (same.call? m ▸ hc), asks.trans h.asks, said.trans h.sent,
    now.trans h.phase, ?_, now ▸ h.awake⟩
  rw [same.nextId, said]
  exact h.numbered

/-- A session with no call under way stays so while its dispatcher is open. -/
theorem Idle.step {sent : List Message} (h : s.Idle phase sent) (a : Action)
    (live : (s.step a).1.dispatcher.closed = false) : (s.step a).1.Idle phase sent :=
  h.same (h.same_step a live)

/-- A call that has something to do begins its course. -/
theorem Idle.begin {sent : List Message} (h : s.Idle phase sent) (led : goal.isLed = true)
    (new : s.call? n = none) (begins : ∀ result, goal.opening phase ≠ .finish result)
    (free : ∀ method, goal = .subscribe method → s.dispatcher.handlers = []) :
    (s.begin n goal).Engaged n goal phase sent := by
  have unchanged : (s.begin n goal).view = ⟨[], sent, phase, s.dispatcher.handlers⟩ := by
    rw [view, ← h.asks, ← h.sent, ← h.phase]
    rfl
  refine ⟨led, ⟨.start goal, ?_, rfl, ?_⟩, fun m c other hc => ?_, h.numbered, h.awake, ?_⟩
  · rw [call?_begin new, if_pos rfl]
  · rw [unchanged]
    exact .ready begins free
  · rw [call?_begin new, if_neg other] at hc
    exact h.calls m c hc
  · intro params greets changed
    exact absurd h.phase changed

/-- What a call has sent so far: nothing, what it says first, or that and the order to
exit. -/
theorem Engaged.sent_cases (h : s.Engaged n goal phase base) :
    s.sent = base ∨ s.sent = base ++ goal.said phase (nextNumber base) ∨
      ∃ grace, goal = .shutdown grace ∧
        s.sent = base ++ goal.said phase (nextNumber base) ++ Ask.exit.messages 0 := by
  obtain ⟨⟨g, stage, number⟩, -, -, course⟩ := h.call
  dsimp only at course
  generalize hv : s.view = v at course
  have sent : s.sent = v.sent := congrArg View.sent hv
  rw [sent]
  cases course with
  | ready | asking => exact .inl rfl
  | answered | waiting | finished | greeted | refused | leaving => exact .inr (.inl rfl)
  | ordered shutdown | exiting shutdown | killed shutdown => exact .inr (.inr ⟨_, shutdown, rfl⟩)

/-- The result of a call that is not the handshake is a success, and nothing but its
messages remains of it; the result of a handshake decides the phase. -/
theorem Engaged.finished {r : Except ClientError Json} (h : s.Engaged n goal phase base)
    (done : s.result? n = some r) :
    s.Idle s.phase (base ++ goal.said phase (nextNumber base)) ∧
      ((∃ v, r = .ok v ∧ s.phase = phase ∧ ∀ params, goal ≠ .handshake params) ∨
        ∃ params, goal = .handshake params ∧
          ((∃ v, r = .ok v) ∧ s.phase = .initialized ∨ (∃ e, r = .error e) ∧ s.phase = phase)) := by
  obtain ⟨c, hc, -, course⟩ := h.call
  have result : c.result? = some r := by
    rw [Session.result?, hc] at done
    exact done
  have calls : ∀ m d, s.call? m = some d → d.result?.isSome = true := by
    intro m d hd
    by_cases own : m = n
    · subst own
      obtain rfl : c = d := Option.some.inj (hc.symm.trans hd)
      rw [result]
      rfl
    · exact h.others m d own hd
  have idle : s.asks = [] → s.sent = base ++ goal.said phase (nextNumber base) →
      s.Idle s.phase (base ++ goal.said phase (nextNumber base)) :=
    fun asks sent => ⟨calls, asks, sent, rfl, h.numbered, h.awake⟩
  obtain ⟨g, stage, number⟩ := c
  dsimp only [Call.result?] at course result
  generalize hv : s.view = v at course
  have asks : s.asks = v.asks := congrArg View.asks hv
  have sent : s.sent = v.sent := congrArg View.sent hv
  have now : s.phase = v.phase := congrArg View.phase hv
  cases course with
  | @finished what v handlers opens plain =>
    refine ⟨idle asks sent, .inl ⟨v, (Option.some.inj result).symm, now, ?_⟩⟩
    rintro params rfl
    obtain ⟨-, rfl⟩ := Goal.inPhase_eq_ask opens
    cases plain
  | @greeted params v handlers handshake =>
    exact ⟨idle asks sent,
      .inr ⟨params, handshake, .inl ⟨⟨v, (Option.some.inj result).symm⟩, now⟩⟩⟩
  | @refused params e handlers handshake =>
    exact ⟨idle asks sent,
      .inr ⟨params, handshake, .inr ⟨⟨e, (Option.some.inj result).symm⟩, now⟩⟩⟩
  | ready | asking | answered | waiting | leaving | ordered | exiting | killed => cases result

theorem Engaged.finished_plain {r : Except ClientError Json} (h : s.Engaged n goal phase base)
    (plain : ∀ params, goal ≠ .handshake params) (done : s.result? n = some r) :
    (∃ v, r = .ok v) ∧ s.Idle phase (base ++ goal.said phase (nextNumber base)) := by
  obtain ⟨idle, ⟨v, ok, now, -⟩ | ⟨params, handshake, -⟩⟩ := h.finished done
  · exact ⟨⟨v, ok⟩, now ▸ idle⟩
  · exact absurd handshake (plain params)

theorem Engaged.finished_handshake {params : InitializeParams} {r : Except ClientError Json}
    (h : s.Engaged n (.handshake params) phase base) (done : s.result? n = some r) :
    (∃ v, r = .ok v) ∧ s.Idle .initialized
        (base ++ (Goal.handshake params).said phase (nextNumber base)) ∨
      (∃ e, r = .error e) ∧
        s.Idle phase (base ++ (Goal.handshake params).said phase (nextNumber base)) := by
  obtain ⟨idle, ⟨_, _, _, plain⟩ | ⟨_, _, ⟨ok, now⟩ | ⟨error, now⟩⟩⟩ := h.finished done
  · exact absurd rfl (plain params)
  · exact .inl ⟨ok, now ▸ idle⟩
  · exact .inr ⟨error, now ▸ idle⟩

end Session

end LanguageClient
