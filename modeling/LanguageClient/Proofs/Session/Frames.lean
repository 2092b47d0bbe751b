import LanguageClient.Proofs.Session.Calls

/-!
# What the steps of a session can do

A call that goes on changes only itself, the queue of commands and what is known of the
server (`ByCall`); an operation of the dispatcher changes only the dispatcher, what was
sent and what has ended.  `Stepped` says once what every step can do; that goals and results
of calls last (`Later`) follows from it.
-/

set_option autoImplicit false

namespace LanguageClient

/-- Whether a command was asked for by a call. -/
def Command.isAsk : Command → Bool
  | .ask .. => true
  | _ => false

namespace Dispatcher

variable {H : Type}

/-- The messages that effects queue for the server. -/
def sentBy (effects : List (Effect H)) : List Message :=
  effects.filterMap fun
    | .sent m => some m
    | _ => none

/-- The requests that effects end, and how. -/
def settledBy (effects : List (Effect H)) : List (Int × Completion) :=
  effects.filterMap fun
    | .completed id completion => some (id, completion)
    | _ => none

end Dispatcher

namespace Session

open Dispatcher

/-! ## The dispatcher -/

/-- Effects add to what was sent and to what has ended. -/
theorem absorbAll_fst (s : Session) (effects : List (Effect String)) :
    (s.absorbAll effects).1 =
      { s with
        sent := s.sent ++ sentBy effects
        outbound := s.outbound ++ sentBy effects
        settled := s.settled ++ settledBy effects } := by
  induction effects generalizing s with
  | nil => simp [absorbAll, sentBy, settledBy]
  | cons e effects ih =>
    have rest := ih (s.absorb e).1
    simp only [absorbAll, Moved.after, rest]
    cases e <;> simp [absorb, sentBy, settledBy]

/-- An operation of the dispatcher changes the dispatcher and adds its effects. -/
theorem applied_fst {α : Type} (s : Session) (o : Outcome String α) :
    (s.applied o).1 =
      { s with
        dispatcher := o.next
        sent := s.sent ++ sentBy o.effects
        outbound := s.outbound ++ sentBy o.effects
        settled := s.settled ++ settledBy o.effects } := by
  rw [applied, absorbAll_fst]

/-! ## Calls -/

/-- Whether one session comes from another by what a call changes when it goes on. -/
structure ByCall (n : Nat) (s s' : Session) : Prop where
  frame : ∃ calls commands phase capabilities killing,
    s' = { s with
      calls := calls
      commands := commands
      phase := phase
      capabilities := capabilities
      killing := killing }
  calls : ∃ f : Call → Call, (∀ c, (f c).goal = c.goal) ∧
    ∀ m, s'.call? m = if m = n then (s.call? m).map f else s.call? m

variable {n : Nat}

/-- The call itself need not change. -/
theorem ByCall.of_calls_eq {s s' : Session} (calls : s'.calls = s.calls)
    (frame : ∃ commands phase capabilities killing,
      s' = { s with
        commands := commands
        phase := phase
        capabilities := capabilities
        killing := killing }) : ByCall n s s' := by
  obtain ⟨commands, phase, capabilities, killing, eq⟩ := frame
  refine ⟨⟨s.calls, commands, phase, capabilities, killing, eq⟩, id, fun _ => rfl, fun m => ?_⟩
  have same : s'.call? m = s.call? m := by rw [call?, calls, call?]
  rw [same, Option.map_id]
  split <;> rfl

theorem ByCall.refl (n : Nat) (s : Session) : ByCall n s s :=
  .of_calls_eq rfl ⟨_, _, _, _, rfl⟩

theorem ByCall.trans {s t u : Session} (h : ByCall n s t) (k : ByCall n t u) : ByCall n s u := by
  obtain ⟨⟨_, _, _, _, _, rfl⟩, f, fgoal, fcalls⟩ := h
  obtain ⟨⟨_, _, _, _, _, rfl⟩, g, ggoal, gcalls⟩ := k
  refine ⟨⟨_, _, _, _, _, rfl⟩, g ∘ f, fun c => (ggoal (f c)).trans (fgoal c), fun m => ?_⟩
  rw [gcalls, fcalls]
  by_cases same : m = n <;> simp [same]

theorem byCall_setStage (s : Session) (n : Nat) (stage : Stage) :
    ByCall n s (s.setStage n stage) :=
  ⟨⟨_, _, _, _, _, rfl⟩, ({ · with stage := stage }), fun _ => rfl,
    fun m => call?_updateCall s n m _⟩

theorem byCall_finish (s : Session) (n : Nat) (result : Except ClientError Json) :
    ByCall n s (s.finish n result).1 :=
  byCall_setStage s n _

theorem byCall_askFor (s : Session) (n : Nat) (topic : Topic) (what : Ask) :
    ByCall n s (s.askFor n topic what) :=
  (byCall_setStage s n _).trans (.of_calls_eq rfl ⟨_, _, _, _, rfl⟩)

theorem byCall_awaitAt (s : Session) (n : Nat) (stage : Stage) :
    ByCall n s (s.awaitAt n stage) := by
  refine ⟨⟨_, _, _, _, _, rfl⟩, ({ · with stage := stage }), fun _ => rfl, fun m => ?_⟩
  rw [call?_awaitAt]
  exact call?_updateCall s n m _

theorem byCall_advancePhase (s : Session) (before after : Phase) :
    ByCall n s (s.advancePhase before after) := by
  unfold advancePhase
  split
  · exact .of_calls_eq rfl ⟨_, _, _, _, rfl⟩
  · exact .refl n s

theorem byCall_handshake (s : Session) (n : Nat) (outcome : Except ClientError Json) :
    ByCall n s (s.handshake n outcome).1 := by
  unfold handshake
  split
  · exact byCall_finish s n _
  · exact byCall_finish s n _
  · split
    · exact byCall_finish s n _
    · rename_i r _
      have known : ByCall n s { s with
          capabilities := s.capabilities <|> some (Capabilities.ofJson r.capabilities) } :=
        .of_calls_eq rfl ⟨_, _, _, _, rfl⟩
      exact (known.trans (byCall_advancePhase _ _ _)).trans (byCall_finish _ n _)

theorem byCall_conclude (s : Session) (n : Nat) (goal : Goal)
    (outcome : Except ClientError Json) : ByCall n s (s.conclude n goal outcome).1 := by
  unfold conclude
  split
  · exact byCall_handshake s n _
  · exact (byCall_advancePhase s _ _).trans (byCall_finish _ n _)
  · exact (byCall_advancePhase s _ _).trans (byCall_askFor _ n _ _)
  · exact byCall_askFor s n _ _
  · exact byCall_finish s n _

theorem byCall_timeOut (s : Session) (n : Nat) (goal : Goal) (id : Int) :
    ByCall n s (s.timeOut n goal id).1 := by
  have given : ByCall n s { s with commands := s.commands ++ [Command.cancel id] } :=
    .of_calls_eq rfl ⟨_, _, _, _, rfl⟩
  exact given.trans (byCall_conclude _ n _ _)

theorem byCall_kill (s : Session) (n grace : Nat) : ByCall n s (s.kill n grace).1 := by
  have killed := byCall_setStage s n .killed
  unfold kill
  by_cases owned : (s.setStage n .killed).process.isSome = true
  · simp only [owned, if_true]
    exact killed.trans (.of_calls_eq rfl ⟨_, _, _, _, rfl⟩)
  · simp only [owned]
    exact killed.trans (.of_calls_eq rfl ⟨_, _, _, _, rfl⟩)

/-- A call that goes on touches nothing but what is its own. -/
theorem byCall_resume (s : Session) (n : Nat) : ByCall n s (s.resume n).1 := by
  unfold resume
  split
  · exact .refl n s
  rename_i c _
  split
  · split
    · exact byCall_askFor s n _ _
    · exact byCall_askFor s n _ _
    · exact byCall_finish s n _
  · exact byCall_conclude s n _ _
  · exact byCall_conclude s n _ _
  · exact byCall_awaitAt s n _
  · exact byCall_awaitAt s n _
  · split
    · exact byCall_conclude s n _ _
    · split
      · exact byCall_timeOut s n _ _
      · exact .refl n s
  · split
    · exact byCall_finish s n _
    · split
      · exact byCall_kill s n _
      · exact .refl n s
  · split
    · exact byCall_finish s n _
    · exact .refl n s
  · exact .refl n s
  · exact .refl n s
  · exact .refl n s

theorem resume_of_result {s : Session} {c : Call} (h : s.call? n = some c)
    (result : c.result?.isSome = true) : s.resume n = (s, []) := by
  unfold resume
  rw [h]
  unfold Call.result? at result
  cases stage : c.stage <;> simp_all

theorem resume_of_ended {s : Session} {n : Nat}
    (ended : ∀ c, s.call? n = some c → c.result?.isSome = true) : s.resume n = (s, []) := by
  cases hc : s.call? n with
  | none => rw [resume, hc]
  | some c => exact resume_of_result hc (ended c hc)

/-! ## Steps -/

/-- The commands in the queue that calls have asked for. -/
def asks (s : Session) : List Command := s.commands.filter Command.isAsk

/-- Whether a step is one of the server's output. -/
def Action.isOutput : Action → Bool
  | .serverWrites _ | .serverCloses => true
  | _ => false

/-- How much time passes in a step. -/
def Action.elapsed : Action → Nat
  | .advance milliseconds => milliseconds
  | _ => 0

/-- What a step can make of a session. -/
inductive Stepped (s : Session) : Action → Session → Prop
  | resumed (n : Nat) : Stepped s (.resume n) (s.resume n).1
  | asked {n : Nat} {topic : Topic} {what : Ask} {rest : List Command}
      (queue : s.commands = .ask n topic what :: rest) :
      Stepped s .serve (perform { s with commands := rest } n topic what).1
  | cancelled {id : Int} {rest : List Command} (queue : s.commands = .cancel id :: rest) :
      Stepped s .serve (applied { s with commands := rest } (s.dispatcher.cancel id)).1
  | received {m : Message} {rest : List Message} (queue : s.inbound = m :: rest) :
      Stepped s .deliver (applied { s with inbound := rest } (s.dispatcher.receive m)).1
  | closed {a : Action} {commands : List Command} {phase : Phase} {flow : Flow} {stopped : Bool}
      (running : flow = .running ↔ s.flow = .running) (stops : stopped = false → s.stopped = false)
      (queue : s.commands = commands ∨ s.commands = .close :: commands)
      (cause : stopped = true ∧ s.mayCommand = false ∨
        stopped = s.stopped ∧ (.close ∈ s.commands ∨ s.flow = .ended)) :
      Stepped s a (applied { s with
        commands := commands
        phase := phase
        flow := flow
        stopped := stopped } s.dispatcher.close).1
  | aside {a : Action} {clock : Nat} {commands : List Command} {reader : Reader}
      {inbound : List Message} {flow : Flow} {outbound : List Message} {writable listening : Bool}
      {complaint : Option Bytes} {watched : Bool}
      (time : clock = s.clock + a.elapsed)
      (queue : commands = s.commands ∨ commands = s.commands ++ [.close] ∧ a = .processExits)
      (silent : a.isOutput = false → reader = s.reader ∧ inbound = s.inbound ∧ flow = s.flow)
      (deaf : listening = s.listening ∨ a = .serverStopsReading)
      (mute : writable = s.dispatcher.writable ∨ s.listening = false)
      (watch : watched = s.watched ∨ a = .processExits) :
      Stepped s a { s with
        clock := clock
        commands := commands
        reader := reader
        inbound := inbound
        flow := flow
        outbound := outbound
        dispatcher := { s.dispatcher with writable := writable }
        listening := listening
        complaint := complaint
        watched := watched }

theorem Stepped.idle (s : Session) {a : Action} (still : a.elapsed = 0) : Stepped s a s :=
  .aside (by rw [still]; rfl) (.inl rfl) (fun _ => ⟨rfl, rfl, rfl⟩) (.inl rfl) (.inl rfl) (.inl rfl)

theorem stepped_serve (s : Session) : Stepped s .serve s.serve.1 := by
  unfold serve
  split
  · exact .idle s rfl
  · split
    · rename_i empty
      split
      · exact .idle s rfl
      · rename_i last
        exact .closed Iff.rfl (by simp) (.inl rfl) (.inl ⟨rfl, Bool.eq_false_iff.mpr last⟩)
    · rename_i command rest queue
      cases command with
      | ask n topic what => exact .asked queue
      | cancel id => exact .cancelled queue
      | close => exact .closed Iff.rfl id (.inr queue) (.inr ⟨rfl, .inl (by simp [queue])⟩)

theorem stepped_deliver (s : Session) : Stepped s .deliver s.deliver.1 := by
  unfold deliver
  split
  · exact .idle s rfl
  · split
    · rename_i m rest queue
      exact .received queue
    · split
      · rename_i ended
        exact .closed (by simp [ended]) id (.inl rfl) (.inr ⟨rfl, .inr ended⟩)
      · exact .idle s rfl

/-- What a step makes of a session is one of these. -/
theorem stepped (s : Session) (a : Action) : Stepped s a (s.step a).1 := by
  cases a with
  | resume n => exact .resumed n
  | serve => exact stepped_serve s
  | deliver => exact stepped_deliver s
  | write =>
    simp only [step, write]
    split
    · exact .idle s rfl
    · split
      · exact .aside rfl (.inl rfl) (fun _ => ⟨rfl, rfl, rfl⟩) (.inl rfl) (.inl rfl) (.inl rfl)
      · rename_i unheard
        exact .aside rfl (.inl rfl) (fun _ => ⟨rfl, rfl, rfl⟩) (.inl rfl)
          (.inr (Bool.eq_false_iff.mpr unheard)) (.inl rfl)
  | serverWrites bytes =>
    simp only [step, serverWrites]
    split <;>
      exact .aside rfl (.inl rfl) (by simp [Action.isOutput]) (.inl rfl) (.inl rfl) (.inl rfl)
  | serverCloses =>
    exact .aside rfl (.inl rfl) (by simp [Action.isOutput]) (.inl rfl) (.inl rfl) (.inl rfl)
  | serverComplains bytes =>
    simp only [step, serverComplains]
    split
    · exact .idle s rfl
    · exact .aside rfl (.inl rfl) (fun _ => ⟨rfl, rfl, rfl⟩) (.inl rfl) (.inl rfl) (.inl rfl)
  | processExits =>
    simp only [step, processExits]
    split
    · exact .aside rfl (.inr ⟨rfl, rfl⟩) (fun _ => ⟨rfl, rfl, rfl⟩) (.inl rfl) (.inl rfl) (.inr rfl)
    · exact .idle s rfl
  | serverEndsComplaints | advance =>
    exact .aside rfl (.inl rfl) (fun _ => ⟨rfl, rfl, rfl⟩) (.inl rfl) (.inl rfl) (.inl rfl)
  | serverStopsReading =>
    exact .aside rfl (.inl rfl) (fun _ => ⟨rfl, rfl, rfl⟩) (.inr rfl) (.inl rfl) (.inl rfl)

/-! ## What lasts -/

/-- Whether a session may come later than another: goals and results of calls last, and so
does what has ended. -/
structure Later (s s' : Session) : Prop where
  language : s'.language = s.language
  goal : ∀ n, (s'.call? n).map Call.goal = (s.call? n).map Call.goal
  result : ∀ n c, s.call? n = some c → c.result?.isSome = true → s'.call? n = some c
  settled : s.settled <+: s'.settled

theorem Later.refl (s : Session) : Later s s :=
  ⟨rfl, fun _ => rfl, fun _ _ h _ => h, List.prefix_rfl⟩

theorem Later.trans {s t u : Session} (h : Later s t) (k : Later t u) : Later s u where
  language := k.language.trans h.language
  goal n := (k.goal n).trans (h.goal n)
  result n c hc done := k.result n c (h.result n c hc done) done
  settled := h.settled.trans k.settled

/-- Where no call is touched, only what has ended matters. -/
theorem Later.of_calls_eq {s s' : Session} (language : s'.language = s.language)
    (calls : s'.calls = s.calls) (settled : s.settled <+: s'.settled) : Later s s' := by
  have same : ∀ n, s'.call? n = s.call? n := fun n => by rw [call?, calls, call?]
  exact ⟨language, fun n => by rw [same], fun n c h _ => by rw [same, h], settled⟩

theorem later_resume (s : Session) (n : Nat) : Later s (s.resume n).1 := by
  by_cases done : ∃ c, s.call? n = some c ∧ c.result?.isSome = true
  · obtain ⟨c, hc, result⟩ := done
    rw [resume_of_result hc result]
    exact .refl s
  · obtain ⟨⟨_, _, _, _, _, frame⟩, f, goal, calls⟩ := byCall_resume s n
    refine ⟨by rw [frame], fun m => ?_, fun m c hc result => ?_, by simp [frame]⟩
    · rw [calls]
      split
      · cases s.call? m <;> simp [goal]
      · rfl
    · -- The call that goes on has no result yet, so this is another one.
      have other : m ≠ n := fun e => done ⟨c, e ▸ hc, result⟩
      rw [calls, if_neg other, hc]

theorem later_answer (s : Session) (n : Nat) (topic : Topic) (a : Answer) :
    Later s (s.answer n topic a) := by
  refine ⟨rfl, fun m => ?_, fun m c hc result => ?_, List.prefix_rfl⟩
  · rw [answer, call?_updateCall]
    split
    · cases s.call? m with
      | none => rfl
      | some c =>
        simp only [Option.map_some, Option.some.injEq]
        split <;> rfl
    · rfl
  · rw [answer, call?_updateCall, hc]
    split
    · -- An answer that comes late finds the call with its result and is lost.
      have notAsking : c.stage ≠ .asking topic := by
        intro asking
        simp [Call.result?, asking] at result
      simp [notAsking]
    · rfl

theorem later_applied {α : Type} (s : Session) (o : Outcome String α) :
    Later s (s.applied o).1 := by
  rw [applied_fst]
  exact .of_calls_eq rfl rfl (List.prefix_append _ _)

theorem later_perform (s : Session) (n : Nat) (topic : Topic) (what : Ask) :
    Later s (s.perform n topic what).1 := by
  unfold perform
  cases what with
  | request | notify | subscribe => exact (later_answer s n topic _).trans (later_applied _ _)

/-- Every step comes later. -/
theorem later_step (s : Session) (a : Action) : Later s (s.step a).1 := by
  have h := stepped s a
  generalize (s.step a).1 = s' at h ⊢
  cases h with
  | resumed n => exact later_resume s n
  | asked =>
    refine Later.trans ?_ (later_perform _ _ _ _)
    exact .of_calls_eq rfl rfl List.prefix_rfl
  | cancelled | received | closed =>
    refine Later.trans ?_ (later_applied _ _)
    exact .of_calls_eq rfl rfl List.prefix_rfl
  | aside => exact .of_calls_eq rfl rfl List.prefix_rfl

end Session

end LanguageClient
