import LanguageClient.Proofs.Session.Frames

/-!
# The turns of a call

When a call goes on, it leaves commands for the dispatcher and moves to another stage.
`Turn` lists the ways in which it can do so, for every goal; whatever calls come to is
read off this list.  `Heard` are the four ways in which a call learns the outcome of
its request or of its only question; a request that is given up is cancelled.
-/

set_option autoImplicit false

namespace LanguageClient

/-- The number of the request that a call at a stage waits for. -/
def Stage.awaited : Stage → Option Int
  | .answered .main (.ok (some id)) | .waiting id _ => some id
  | _ => none

/-- Whether a call at a stage has only the end of the session ahead of it. -/
def Stage.isLeaving : Stage → Bool
  | .answered .exit _ | .exiting _ | .killed => true
  | _ => false

/-- The result that a call at a stage has. -/
def Stage.result? : Stage → Option (Except ClientError Json)
  | .finished r => some r
  | _ => none

theorem Stage.result?_of_isLeaving {stage : Stage} (leaving : stage.isLeaving = true) :
    stage.result? = none := by
  cases stage with
  | finished => cases leaving
  | ready | asking | answered | waiting | exiting | killed | abandoned => rfl

theorem Call.result?_eq (c : Call) : c.result? = c.stage.result? := by
  obtain ⟨goal, stage, number⟩ := c
  cases stage <;> rfl

/-- Whether a call with a goal returns the outcome that it learns of. -/
def Goal.isPlain : Goal → Bool
  | .handshake _ | .requestShutdown | .shutdown _ => false
  | _ => true

/-- The result that a call is handed in an event. -/
def Event.returned? : Event → Option (Nat × Except ClientError Json)
  | .finished n r => some (n, r)
  | _ => none

namespace Session

/-- The outcome that a call can learn of, and the commands by which it gives its request
up. -/
inductive Heard (s : Session) (c : Call) : Except ClientError Json → List Command → Prop
  | refused {e : ClientError} (stage : c.stage = .answered .main (.error e)) :
      Heard s c (.error e) []
  | done (stage : c.stage = .answered .main (.ok none)) : Heard s c (.ok .null) []
  | completed {id : Int} {deadline : Nat} {completion : Completion}
      (stage : c.stage = .waiting id deadline) (found : s.completion? id = some completion) :
      Heard s c completion.toResult []
  | timedOut {id : Int} {deadline : Nat} (stage : c.stage = .waiting id deadline)
      (silent : s.completion? id = none) (late : deadline ≤ s.clock) :
      Heard s c (.error (.timeout c.goal.requestMethod (s.limit / 1000))) [.cancel id]

/-- The stages to which a call can go on, with the commands that it leaves. -/
inductive Turn (s : Session) (n : Nat) (c : Call) : Stage → List Command → Prop
  | declines {r : Except ClientError Json} (ready : c.stage = .ready)
      (opens : c.goal.opening s.phase = .finish r) : Turn s n c (.finished r) []
  | asks {what : Ask} (ready : c.stage = .ready) (opens : c.goal.opening s.phase = .ask what) :
      Turn s n c (.asking .main) [.ask n .main what]
  | exits (ready : c.stage = .ready) (opens : c.goal.opening s.phase = .exit) :
      Turn s n c (.asking .exit) [.ask n .exit .exit]
  | awaits {id : Int} (granted : c.stage = .answered .main (.ok (some id))) :
      Turn s n c (.waiting id (s.clock + s.limit)) []
  | ends {outcome r : Except ClientError Json} {given : List Command}
      (heard : Heard s c outcome given)
      (whole : c.goal.isPlain = true → r = outcome)
      (stays : ∀ grace, c.goal ≠ .shutdown grace) : Turn s n c (.finished r) given
  | leaves {outcome : Except ClientError Json} {given : List Command} {grace : Nat}
      (heard : Heard s c outcome given) (shutdown : c.goal = .shutdown grace) :
      Turn s n c (.asking .exit) (given ++ [.ask n .exit .exit])
  | goesOn {stage : Stage} {given : List Command} (leaving : c.stage.isLeaving = true)
      (on : stage.isLeaving = true ∨ stage = .finished (.ok .null) ∧ s.phase = .exited)
      (closes : given = [] ∨ given = [.close]) : Turn s n c stage given

/-- A call that has been moved to a stage, with the commands that it has left and the
result that it has been handed. -/
structure Turned (s : Session) (n : Nat) (c : Call) (stage : Stage) (given : List Command)
    (m : Moved) : Prop where
  call : m.1.call? n = some { c with stage := stage }
  commands : m.1.commands = s.commands ++ given
  returned : m.2.filterMap Event.returned? = (stage.result?.map (n, ·)).toList

variable {s : Session} {n : Nat} {c : Call}

theorem turned_finish (hc : s.call? n = some c) (r : Except ClientError Json) :
    Turned s n c (.finished r) [] (s.finish n r) :=
  ⟨call?_setStage_self hc _, (List.append_nil _).symm, rfl⟩

theorem turned_askFor (hc : s.call? n = some c) (topic : Topic) (what : Ask) :
    Turned s n c (.asking topic) [.ask n topic what] (s.askFor n topic what, []) :=
  ⟨call?_askFor_self hc topic what, rfl, rfl⟩

theorem turned_awaitAt (hc : s.call? n = some c) {stage : Stage} (quiet : stage.result? = none) :
    Turned s n c stage [] (s.awaitAt n stage, []) :=
  ⟨call?_awaitAt_self hc stage, (List.append_nil _).symm, by simp [quiet]⟩

/-- What is done first, without touching any call. -/
theorem Turned.behind {s t : Session} {m : Moved} {stage : Stage} {given more : List Command}
    (h : Turned t n c stage more m) (commands : t.commands = s.commands ++ given) :
    Turned s n c stage (given ++ more) m := by
  refine ⟨h.call, ?_, h.returned⟩
  rw [h.commands, commands, List.append_assoc]

theorem call?_advancePhase (s : Session) (n : Nat) (before after : Phase) :
    (s.advancePhase before after).call? n = s.call? n := by
  unfold advancePhase
  split <;> rfl

theorem commands_advancePhase (s : Session) (before after : Phase) :
    (s.advancePhase before after).commands = s.commands := by
  unfold advancePhase
  split <;> rfl

/-- The phase may change before a call goes on. -/
theorem Turned.behind_advancePhase {before after : Phase} {m : Moved} {stage : Stage}
    {given : List Command} (h : Turned (s.advancePhase before after) n c stage given m) :
    Turned s n c stage given m := by
  have commands : (s.advancePhase before after).commands = s.commands ++ [] := by
    rw [commands_advancePhase, List.append_nil]
  exact h.behind commands

theorem turned_handshake (hc : s.call? n = some c) (outcome : Except ClientError Json) :
    ∃ r, Turned s n c (.finished r) [] (s.handshake n outcome) := by
  unfold handshake
  split
  · exact ⟨_, turned_finish hc _⟩
  · exact ⟨_, turned_finish hc _⟩
  · split
    · exact ⟨_, turned_finish hc _⟩
    · rename_i r _
      have held : (advancePhase { s with
          capabilities := s.capabilities <|> some (Capabilities.ofJson r.capabilities) }
            .launched .initialized).call? n = some c := by
        rw [call?_advancePhase]
        exact hc
      have turned := (turned_finish held (.ok r.toJson)).behind_advancePhase
      exact ⟨_, turned.call, turned.commands, turned.returned⟩

/-- With the outcome that it has learned a call ends, or it goes on to the order to exit. -/
theorem turned_conclude (hc : s.call? n = some c) (outcome : Except ClientError Json) :
    (∃ r, Turned s n c (.finished r) [] (s.conclude n c.goal outcome) ∧
        (c.goal.isPlain = true → r = outcome) ∧ ∀ grace, c.goal ≠ .shutdown grace) ∨
      (∃ grace, c.goal = .shutdown grace) ∧
        Turned s n c (.asking .exit) [.ask n .exit .exit] (s.conclude n c.goal outcome) := by
  cases goal : c.goal with
  | handshake params =>
    obtain ⟨r, turned⟩ := turned_handshake hc outcome
    exact .inl ⟨r, turned, by simp [Goal.isPlain], by simp⟩
  | requestShutdown =>
    cases outcome with
    | ok v =>
      refine .inl ⟨.ok .null, Turned.behind_advancePhase (turned_finish ?_ _),
        by simp [Goal.isPlain], by simp⟩
      rw [call?_advancePhase]
      exact hc
    | error e => exact .inl ⟨.error e, turned_finish hc _, by simp [Goal.isPlain], by simp⟩
  | shutdown grace =>
    refine .inr ⟨⟨grace, rfl⟩, ?_⟩
    cases outcome with
    | ok v =>
      refine Turned.behind_advancePhase (turned_askFor ?_ _ _)
      rw [call?_advancePhase]
      exact hc
    | error e => exact ⟨call?_askFor_self hc _ _, rfl, rfl⟩
  | request | notify | subscribe | openDocument | closeDocument =>
    exact .inl ⟨outcome, turned_finish hc outcome, fun _ => rfl, by simp⟩

theorem turned_timeOut {id : Int} (hc : s.call? n = some c) :
    (∃ r, Turned s n c (.finished r) [.cancel id] (s.timeOut n c.goal id) ∧
        (c.goal.isPlain = true →
          r = .error (.timeout c.goal.requestMethod (s.limit / 1000))) ∧
        ∀ grace, c.goal ≠ .shutdown grace) ∨
      (∃ grace, c.goal = .shutdown grace) ∧
        Turned s n c (.asking .exit) [.cancel id, .ask n .exit .exit] (s.timeOut n c.goal id) := by
  have held : ({ s with commands := s.commands ++ [Command.cancel id] } : Session).call? n =
      some c := hc
  have concluded := turned_conclude held
    (.error (.timeout c.goal.requestMethod (s.limit / 1000)))
  rcases concluded with ⟨r, turned, whole, stays⟩ | ⟨shutdown, turned⟩
  · have behind := turned.behind (s := s) rfl
    exact .inl ⟨r, ⟨behind.call, behind.commands, behind.returned⟩, whole, stays⟩
  · have behind := turned.behind (s := s) rfl
    exact .inr ⟨shutdown, ⟨behind.call, behind.commands, behind.returned⟩⟩

theorem turned_kill (hc : s.call? n = some c) (grace : Nat) :
    ∃ given, (given = [] ∨ given = [.close]) ∧ Turned s n c .killed given (s.kill n grace) := by
  have killed := call?_setStage_self hc .killed
  unfold kill
  by_cases owned : (s.setStage n .killed).process.isSome = true
  · simp only [owned, if_true]
    exact ⟨[], .inl rfl, killed, (List.append_nil _).symm, rfl⟩
  · simp only [owned]
    exact ⟨[.close], .inr rfl, killed, rfl, rfl⟩

/-- Whether a call at a stage has nothing to go on with. -/
def Rests (s : Session) : Stage → Prop
  | .ready | .answered .. => False
  | .waiting id deadline => s.completion? id = none ∧ s.clock < deadline
  | _ => True

/-- A call that goes on takes one of its turns, or it rests. -/
theorem turned_resume (hc : s.call? n = some c) :
    (s.resume n = (s, []) ∧ s.Rests c.stage) ∨
      ∃ stage given, Turn s n c stage given ∧ Turned s n c stage given (s.resume n) := by
  obtain ⟨goal, stage, number⟩ := c
  have ends : ∀ {outcome : Except ClientError Json} {given : List Command} {m : Moved},
      Heard s ⟨goal, stage, number⟩ outcome given →
      ((∃ r, Turned s n ⟨goal, stage, number⟩ (.finished r) given m ∧
          (goal.isPlain = true → r = outcome) ∧ ∀ grace, goal ≠ .shutdown grace) ∨
        (∃ grace, goal = .shutdown grace) ∧
          Turned s n ⟨goal, stage, number⟩ (.asking .exit) (given ++ [.ask n .exit .exit]) m) →
      ∃ stage' given', Turn s n ⟨goal, stage, number⟩ stage' given' ∧
        Turned s n ⟨goal, stage, number⟩ stage' given' m := by
    rintro outcome given m heard (⟨r, turned, whole, stays⟩ | ⟨⟨grace, shutdown⟩, turned⟩)
    · exact ⟨_, _, .ends heard whole stays, turned⟩
    · exact ⟨_, _, .leaves heard shutdown, turned⟩
  unfold resume
  rw [hc]
  dsimp only
  cases stage with
  | ready =>
    refine .inr ?_
    dsimp only
    cases opens : goal.opening s.phase with
    | ask what => exact ⟨_, _, .asks rfl opens, turned_askFor hc _ _⟩
    | exit => exact ⟨_, _, .exits rfl opens, turned_askFor hc _ _⟩
    | finish r => exact ⟨_, _, .declines rfl opens, turned_finish hc r⟩
  | answered topic answer =>
    refine .inr ?_
    cases topic with
    | main =>
      match answer with
      | .error e => exact ends (.refused rfl) (turned_conclude hc _)
      | .ok none => exact ends (.done rfl) (turned_conclude hc _)
      | .ok (some id) => exact ⟨_, _, .awaits rfl, turned_awaitAt hc rfl⟩
    | exit => exact ⟨_, _, .goesOn rfl (.inl rfl) (.inl rfl), turned_awaitAt hc rfl⟩
  | waiting id deadline =>
    dsimp only
    cases found : s.completion? id with
    | some completion => exact .inr (ends (.completed rfl found) (turned_conclude hc _))
    | none =>
      dsimp only
      split
      · rename_i late
        exact .inr (ends (.timedOut rfl found late) (turned_timeOut hc))
      · rename_i early
        exact .inl ⟨rfl, found, by omega⟩
  | exiting deadline =>
    dsimp only
    split
    · rename_i exited
      exact .inr ⟨_, _, .goesOn rfl (.inr ⟨rfl, exited⟩) (.inl rfl), turned_finish hc _⟩
    · split
      · obtain ⟨given, closes, turned⟩ := turned_kill hc goal.grace
        exact .inr ⟨_, _, .goesOn rfl (.inl rfl) closes, turned⟩
      · exact .inl ⟨rfl, trivial⟩
  | killed =>
    dsimp only
    split
    · rename_i exited
      exact .inr ⟨_, _, .goesOn rfl (.inr ⟨rfl, exited⟩) (.inl rfl), turned_finish hc _⟩
    · exact .inl ⟨rfl, trivial⟩
  | asking | finished | abandoned => exact .inl ⟨rfl, trivial⟩

/-- A call that learns its outcome concludes with it. -/
theorem resume_of_heard {outcome : Except ClientError Json} {given : List Command}
    (hc : s.call? n = some c) (heard : Heard s c outcome given) :
    (s.resume n).1 =
      (({ s with commands := s.commands ++ given } : Session).conclude n c.goal outcome).1 := by
  have unasked : ({ s with commands := s.commands ++ [] } : Session) = s := by
    rw [List.append_nil]
  unfold resume
  rw [hc]
  cases heard with
  | refused at_ | done at_ => simp only [at_, unasked]
  | completed at_ found => simp only [at_, found, unasked]
  | timedOut at_ silent late =>
    simp only [at_, silent, late, if_true]
    rfl

end Session

end LanguageClient
