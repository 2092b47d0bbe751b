import LanguageClient.Proofs.Dispatch.Pending
import LanguageClient.Proofs.Session.Wire
import LanguageClient.Proofs.Session.Reading

/-!
# The table of requests in a session

Whatever happens to a session, its dispatcher performs at most one operation.  `Worked`
says what an operation does to the pending numbers and to the requests that have ended;
`worked_undergo` finds the operation, together with the message that it takes in.
-/

set_option autoImplicit false

namespace LanguageClient

/-- What a message answers to the request with a number. -/
def Message.answer? (id : Int) : Message → Option (Except RpcError Json)
  | .response n outcome => if n = id then some outcome else none
  | _ => none

namespace Dispatcher

variable {H : Type}

/-- The message that an operation takes in. -/
def Op.received? : Op H → Option Message
  | .receive m => some m
  | _ => none

theorem Op.ending?_receive (id : Int) (m : Message) :
    Op.ending? id (.receive m : Op H) = (m.answer? id).map completionOf := by
  cases m with
  | response n outcome =>
    by_cases same : n = id <;> cases outcome <;>
      simp [Op.ending?, Message.answer?, completionOf, same]
  | notification | request => rfl

theorem completionOf_ne (outcome : Except RpcError Json) :
    completionOf outcome ≠ .terminated ∧ completionOf outcome ≠ .dropped := by
  cases outcome <;> simp [completionOf]

/-- Whether an outcome does to the table of requests what an operation does. -/
def Performs {α : Type} (d : Dispatcher H) (op : Op H) (o : Outcome H α) : Prop :=
  ∃ reply, TableStep op d o.next ⟨reply, o.effects⟩

theorem performs_request (d : Dispatcher H) (method : String) (params : Json) :
    d.Performs (.request method params) (d.request method params) := by
  have step := Attended.tableStep ⟨d, []⟩ (.request method params)
  simp only [Attended.step, Attended.advance] at step
  split at step <;> exact ⟨_, step⟩

theorem performs_notify (d : Dispatcher H) (method : String) (params : Json) :
    d.Performs (.notify method params) (d.notify method params) :=
  ⟨_, Attended.tableStep ⟨d, []⟩ (.notify method params)⟩

theorem performs_subscribe (d : Dispatcher H) (method : String) (handler : H) :
    d.Performs (.subscribe method handler) (d.subscribe method handler) :=
  ⟨_, Attended.tableStep ⟨d, []⟩ (.subscribe method handler)⟩

theorem performs_receive (d : Dispatcher H) (m : Message) :
    d.Performs (.receive m) (d.receive m) :=
  ⟨_, Attended.tableStep ⟨d, []⟩ (.receive m)⟩

theorem performs_cancel (d : Dispatcher H) (id : Int) : d.Performs (.cancel id) (d.cancel id) :=
  ⟨_, Attended.tableStep ⟨d, []⟩ (.cancel id)⟩

theorem performs_close (d : Dispatcher H) : d.Performs .close d.close :=
  ⟨_, Attended.tableStep ⟨d, []⟩ .close⟩

theorem find?_settledBy (id : Int) (effects : List (Effect H)) :
    ((settledBy effects).find? (·.1 = id)).map (·.2) = (completionsOf id effects).head? := by
  induction effects with
  | nil => rfl
  | cons e effects ih =>
    rw [completionsOf_cons]
    cases e with
    | completed k completion =>
      have first : settledBy (.completed k completion :: effects) =
          (k, completion) :: settledBy effects := rfl
      rw [first]
      by_cases same : k = id
      · simp [Effect.completion?, same]
      · simpa [Effect.completion?, same] using ih
    | sent m =>
      have first : settledBy (.sent m :: effects) = settledBy effects := rfl
      rw [first]
      exact ih
    | called handler params =>
      have first : settledBy (.called handler params :: effects) = settledBy effects := rfl
      rw [first]
      exact ih
    | logged record =>
      have first : settledBy (.logged record :: effects) = settledBy effects := rfl
      rw [first]
      exact ih

end Dispatcher

open Dispatcher in
/-- The operation of the dispatcher that an ask leads to. -/
def Ask.operation : Ask → Op String
  | .request method params => .request method params
  | .notify method params => .notify method params
  | .subscribe method => .subscribe method method

theorem Ask.ending?_operation (what : Ask) (id : Int) :
    Dispatcher.Op.ending? id what.operation = none := by
  cases what <;> rfl

namespace Session

open Dispatcher

variable {s s' : Session}

/-! ## Messages -/

/-- The messages that leave the queue of the dispatcher when something happens. -/
def took (s : Session) (d : Deed) : List Message :=
  s.inbound.take (s.inbound.length - (s.undergo d).1.inbound.length)

theorem took_of_length_le {d : Deed} (longer : s.inbound.length ≤ (s.undergo d).1.inbound.length) :
    s.took d = [] := by
  have none : s.inbound.length - (s.undergo d).1.inbound.length = 0 := by omega
  rw [took, none, List.take_zero]

theorem took_serverWrites (s : Session) (bytes : Bytes) :
    s.took (.act (.serverWrites bytes)) = [] := by
  apply took_of_length_le
  simp only [undergo, step, serverWrites]
  split
  · simp
  · simp [endOutput]

/-! ## Operations -/

theorem completion?_append (s : Session) (more : List (Int × Completion)) (id : Int) :
    ({ s with settled := s.settled ++ more } : Session).completion? id =
      (s.completion? id).or ((more.find? (·.1 = id)).map (·.2)) := by
  simp only [completion?, List.find?_append]
  cases s.settled.find? (·.1 = id) <;> rfl

/-- What an operation of the dispatcher, if there is one, does to the numbers and the
requests that have ended. -/
structure Worked (op : Option (Op String)) (s s' : Session) : Prop where
  next : s.dispatcher.nextId ≤ s'.dispatcher.nextId
  numbered : s'.dispatcher.Numbered
  old : ∀ id < s.dispatcher.nextId,
    id ∈ s'.dispatcher.pending ↔ id ∈ s.dispatcher.pending ∧ op.bind (Op.ending? id) = none
  new : ∀ id ∈ s'.dispatcher.pending, id ∈ s.dispatcher.pending ∨ id = s.dispatcher.nextId
  completion : ∀ id, s'.completion? id =
    (s.completion? id).or (if id ∈ s.dispatcher.pending then op.bind (Op.ending? id) else none)
  closed : s.dispatcher.closed = true → s'.dispatcher.closed = true
  terminated : ∀ id, op.bind (Op.ending? id) = some .terminated → s'.dispatcher.closed = true

/-- Where neither numbers nor completions change no operation has been performed. -/
theorem Worked.of_same (numbered : s.dispatcher.Numbered)
    (next : s'.dispatcher.nextId = s.dispatcher.nextId)
    (pending : s'.dispatcher.pending = s.dispatcher.pending)
    (settled : s'.settled = s.settled) (closed : s'.dispatcher.closed = s.dispatcher.closed) :
    Worked none s s' := by
  refine ⟨by rw [next], ⟨pending ▸ numbered.nodup, ?_⟩, ?_, ?_, ?_, fun was => closed.trans was, ?_⟩
  · rw [pending, next]
    exact numbered.lt_nextId
  · intro id _
    simp [pending]
  · intro id mem
    exact .inl (pending ▸ mem)
  · intro id
    simp [completion?, settled]
  · intro id ends
    cases ends

theorem Worked.before {op : Option (Op String)} {t : Session} (h : Worked op t s')
    (dispatcher : t.dispatcher = s.dispatcher) (settled : t.settled = s.settled) :
    Worked op s s' := by
  have ended : ∀ id, t.completion? id = s.completion? id := by
    intro id
    rw [completion?, settled, completion?]
  obtain ⟨next, numbered, old, new, completion, closed, terminated⟩ := h
  rw [dispatcher] at next old new closed
  refine ⟨next, numbered, old, new, ?_, closed, terminated⟩
  intro id
  rw [completion id, ended, dispatcher]

theorem worked_applied {α : Type} {o : Outcome String α} {op : Op String}
    (numbered : s.dispatcher.Numbered) (performs : s.dispatcher.Performs op o)
    (closed : s.dispatcher.closed = true → o.next.closed = true)
    (terminated : ∀ id, op.ending? id = some .terminated → o.next.closed = true) :
    Worked (some op) s (s.applied o).1 := by
  obtain ⟨reply, step⟩ := performs
  rw [applied_fst]
  refine ⟨step.nextId_le, step.numbered numbered, ?_, ?_, ?_, closed, terminated⟩
  · intro id old
    exact step.mem_pending_iff numbered old
  · intro id mem
    cases step with
    | kept _ table => exact .inl (table ▸ mem)
    | issued _ _ _ table =>
      simp only [table, List.mem_append, List.mem_singleton] at mem
      exact mem
    | ended _ _ _ _ table =>
      simp only [table] at mem
      exact .inl (List.mem_of_mem_erase mem)
    | cleared _ _ table =>
      simp only [table] at mem
      cases mem
  · intro id
    have fires := step.completionsOf_eq numbered id
    have added := completion?_append s (settledBy o.effects) id
    rw [find?_settledBy, fires] at added
    refine Eq.trans added ?_
    congr 1
    split
    · simp only [Option.bind_some]
      cases op.ending? id <;> rfl
    · rfl

theorem worked_cancel (numbered : s.dispatcher.Numbered) (id : Int) :
    Worked (some (.cancel id)) s (s.applied (s.dispatcher.cancel id)).1 := by
  obtain ⟨-, pending, next⟩ := cancel_spec s.dispatcher id
  apply worked_applied numbered (performs_cancel _ _)
  · intro closed
    rw [next]
    exact closed
  · intro k ends
    simp only [Op.ending?] at ends
    split at ends <;> cases ends

theorem worked_receive (numbered : s.dispatcher.Numbered) (m : Message) :
    Worked (some (.receive m)) s (s.applied (s.dispatcher.receive m)).1 := by
  obtain ⟨-, pending, next⟩ := receive_spec s.dispatcher m
  apply worked_applied numbered (performs_receive _ _)
  · intro closed
    rw [next]
    exact closed
  · intro k ends
    rw [Op.ending?_receive, Option.map_eq_some_iff] at ends
    obtain ⟨outcome, -, beyond⟩ := ends
    exact absurd beyond (completionOf_ne outcome).1

theorem worked_close (numbered : s.dispatcher.Numbered) :
    Worked (some .close) s (s.applied s.dispatcher.close).1 :=
  worked_applied numbered (performs_close _) (fun _ => rfl) fun _ _ => rfl

theorem frame_applied {α : Type} (s : Session) (o : Outcome String α) :
    (s.applied o).1.inbound = s.inbound ∧ (s.applied o).1.commands = s.commands ∧
      (s.applied o).1.calls = s.calls := by
  rw [applied_fst]
  exact ⟨rfl, rfl, rfl⟩

/-! ## Commands -/

theorem frame_perform (s : Session) (n : Nat) (topic : Topic) (what : Ask) :
    (s.perform n topic what).1.commands = s.commands ∧
      (s.perform n topic what).1.inbound = s.inbound := by
  unfold perform
  cases what with
  | request | notify | subscribe =>
    simp only [applied_fst]
    exact ⟨rfl, rfl⟩

/-- What carrying out an ask makes of a session: the call gets an answer, and only the
answer to a request that was sent holds a number. -/
structure Carried (s s' : Session) (n : Nat) (topic : Topic) (what : Ask) : Prop where
  worked : Worked (some what.operation) s s'
  answered : ∃ a, s'.calls = (s.answer n topic a).calls ∧
    ((∃ method params, what = .request method params ∧ a = .ok (some s.dispatcher.nextId) ∧
        s'.dispatcher.nextId = s.dispatcher.nextId + 1 ∧
        s.dispatcher.nextId ∈ s'.dispatcher.pending ∧
        s'.sent = s.sent ++ [.request s.dispatcher.nextId method params]) ∨
      (∃ e, a = .error e ∧ ∀ method params, what = .request method params →
        e = .sessionTerminated ∧ s'.dispatcher.closed = true) ∨
      a = .ok none ∧ ∀ method params, what ≠ .request method params)

theorem carried_perform (numbered : s.dispatcher.Numbered) (n : Nat) (topic : Topic) (what : Ask) :
    Carried s (s.perform n topic what).1 n topic what := by
  -- The answer touches only calls, so the operation finds the table as it was.
  have worked : ∀ {α : Type} {op : Op String} {o : Outcome String α} (a : Answer),
      s.dispatcher.Performs op o → Guarded s.dispatcher o →
      (∀ id, op.ending? id ≠ some .terminated) →
      Worked (some op) s ((s.answer n topic a).applied o).1 := by
    intro α op o a performs guarded harmless
    have applied : Worked (some op) (s.answer n topic a) ((s.answer n topic a).applied o).1 := by
      apply worked_applied (s := s.answer n topic a) numbered performs guarded.closed
      intro id ends
      exact absurd ends (harmless id)
    exact ⟨applied.next, applied.numbered, applied.old, applied.new, applied.completion,
      applied.closed, applied.terminated⟩
  have harmless : ∀ id, Op.ending? id what.operation ≠ some .terminated := by
    intro id
    simp [what.ending?_operation id]
  unfold perform
  cases what with
  | request method params =>
    refine ⟨worked _ (performs_request _ _ _) (guarded_request _ _ _) harmless, _,
      by rw [applied_fst], ?_⟩
    simp only [applied_fst]
    unfold Dispatcher.request
    split
    · rename_i closed
      exact .inr (.inl ⟨_, rfl, fun _ _ _ => ⟨rfl, closed⟩⟩)
    · split
      · exact .inl ⟨method, params, rfl, rfl, rfl, by simp, rfl⟩
      · exact .inr (.inl ⟨_, rfl, fun _ _ _ => ⟨rfl, rfl⟩⟩)
  | notify method params =>
    refine ⟨worked _ (performs_notify _ _ _) (guarded_notify _ _ _) harmless, _,
      by rw [applied_fst], .inr ?_⟩
    cases (s.dispatcher.notify method params).result with
    | error e => exact .inl ⟨e, rfl, by simp⟩
    | ok v => exact .inr ⟨rfl, by simp⟩
  | subscribe method =>
    refine ⟨worked _ (performs_subscribe _ _ _) (guarded_subscribe _ _ _) harmless, _,
      by rw [applied_fst], .inr ?_⟩
    cases (s.dispatcher.subscribe method method).result with
    | error e => exact .inl ⟨e, rfl, by simp⟩
    | ok v => exact .inr ⟨rfl, by simp⟩

/-- How the queue of commands changes where no call is concerned. -/
inductive Requeued (op : Option (Op String)) : List Command → List Command → Prop
  | same {commands : List Command} (other : ∀ id, op ≠ some (.cancel id)) :
      Requeued op commands commands
  | closed {commands : List Command} (other : ∀ id, op ≠ some (.cancel id)) :
      Requeued op (.close :: commands) commands
  | exited {commands : List Command} (other : ∀ id, op ≠ some (.cancel id)) :
      Requeued op commands (commands ++ [.close])
  | cancelled {id : Int} {commands : List Command} (own : op = some (.cancel id)) :
      Requeued op (.cancel id :: commands) commands

/-- The queue gains at its end, or loses a command in front that no call has asked for. -/
theorem Requeued.cases {op : Option (Op String)} {commands commands' : List Command}
    (h : Requeued op commands commands') :
    (∃ given, commands' = commands ++ given) ∨
      ∃ command, commands = command :: commands' ∧ command.isAsk = false := by
  cases h with
  | same => exact .inl ⟨[], (List.append_nil _).symm⟩
  | closed => exact .inr ⟨.close, rfl, rfl⟩
  | exited => exact .inl ⟨[.close], rfl⟩
  | @cancelled id => exact .inr ⟨.cancel id, rfl, rfl⟩

/-- What becomes of calls, commands and requests when something happens. -/
inductive Happened (s : Session) : Deed → Session → Prop
  | resumed (n : Nat) : Happened s (.act (.resume n)) (s.resume n).1
  | asked {n : Nat} {topic : Topic} {what : Ask} {s' : Session}
      (queue : s.commands = .ask n topic what :: s'.commands) (carried : Carried s s' n topic what)
      (nothing : s.took (.act .serve) = []) : Happened s (.act .serve) s'
  | aside {d : Deed} {op : Option (Op String)} {s' : Session} (calls : s'.calls = s.calls)
      (worked : Worked op s s') (took : s.took d = (op.bind Op.received?).toList)
      (queue : Requeued op s.commands s'.commands) : Happened s d s'
  | begun (n : Nat) (goal : Goal) : Happened s (.begin n goal) (s.begin n goal)
  | abandoned (n : Nat) : Happened s (.abandon n) (s.abandon n)

theorem took_serverCloses (s : Session) : s.took (.act .serverCloses) = [] :=
  took_of_length_le (by simp [undergo, step, endOutput])

theorem happened_act (numbered : s.dispatcher.Numbered) (a : Action) :
    Happened s (.act a) (s.step a).1 := by
  -- What the server does adds to the queue of messages, so nothing leaves it then.
  have output : a.isOutput = true → s.took (.act a) = [] := by
    intro output
    cases a with
    | serverWrites bytes => exact took_serverWrites s bytes
    | serverCloses => exact took_serverCloses s
    | resume | serve | deliver | write | serverComplains | serverEndsComplaints
    | serverStopsReading | processExits | advance => cases output
  have took : s.took (.act a) = s.inbound.take (s.inbound.length - (s.step a).1.inbound.length) :=
    rfl
  have h := stepped s a
  generalize (s.step a).1 = s' at h took ⊢
  cases h with
  | resumed n => exact .resumed n
  | @asked n topic what rest queue =>
    obtain ⟨commands, inbound⟩ := frame_perform { s with commands := rest } n topic what
    have carried := carried_perform (s := { s with commands := rest }) numbered n topic what
    refine .asked ?_ ⟨carried.worked.before rfl rfl, carried.answered⟩ ?_
    · rw [commands, queue]
    · rw [took, inbound, Nat.sub_self, List.take_zero]
  | @cancelled id rest queue =>
    have worked := worked_cancel (s := { s with commands := rest }) numbered id
    obtain ⟨inbound, commands, calls⟩ :=
      frame_applied { s with commands := rest } (s.dispatcher.cancel id)
    refine .aside calls (worked.before rfl rfl) ?_ ?_
    · rw [took, inbound, Nat.sub_self, List.take_zero]
      rfl
    · rw [queue, commands]
      exact .cancelled rfl
  | @received m rest queue =>
    have worked := worked_receive (s := { s with inbound := rest }) numbered m
    obtain ⟨inbound, commands, calls⟩ :=
      frame_applied { s with inbound := rest } (s.dispatcher.receive m)
    refine .aside calls (worked.before rfl rfl) ?_ ?_
    · rw [took, inbound, queue, List.length_cons, Nat.add_sub_cancel_left]
      rfl
    · rw [commands]
      exact .same (by simp)
  | @closed _ commands phase flow stopped running stops queue =>
    have worked := worked_close (s := { s with
      commands := commands, phase := phase, flow := flow, stopped := stopped }) numbered
    obtain ⟨inbound, left, calls⟩ := frame_applied { s with
      commands := commands, phase := phase, flow := flow, stopped := stopped } s.dispatcher.close
    refine .aside calls (worked.before rfl rfl) ?_ ?_
    · rw [took, inbound, Nat.sub_self, List.take_zero]
      rfl
    · rw [left]
      rcases queue with rfl | queue
      · exact .same (by simp)
      · rw [queue]
        exact .closed (by simp)
  | aside time queue silent =>
    refine .aside rfl (Worked.of_same numbered rfl rfl rfl rfl) ?_ ?_
    · by_cases loud : a.isOutput = true
      · exact output loud
      · obtain ⟨-, inbound, -⟩ := silent (Bool.eq_false_iff.mpr loud)
        rw [took]
        simp [inbound]
    · rcases queue with rfl | ⟨rfl, -⟩
      · exact .same (by simp)
      · exact .exited (by simp)

theorem happened (numbered : s.dispatcher.Numbered) (d : Deed) :
    Happened s d (s.undergo d).1 := by
  cases d with
  | act a => exact happened_act numbered a
  | begin n goal => exact .begun n goal
  | abandon n => exact .abandoned n
  | release =>
    exact .aside rfl (Worked.of_same numbered rfl rfl rfl rfl) (took_of_length_le (Nat.le_refl _))
      (.same (by simp))

/-- A call that goes on changes nothing of the table of requests. -/
theorem ByCall.worked {n : Nat} (h : ByCall n s s') (numbered : s.dispatcher.Numbered) :
    Worked none s s' := by
  obtain ⟨_, _, _, _, _, rfl⟩ := h.frame
  exact .of_same numbered rfl rfl rfl rfl

/-- Whatever happens, the dispatcher performs at most one operation, and the message that
leaves its queue is the one that the operation takes in. -/
theorem worked_undergo (numbered : s.dispatcher.Numbered) (d : Deed) :
    ∃ op, Worked op s (s.undergo d).1 ∧ s.took d = (op.bind Op.received?).toList := by
  have happened := happened numbered d
  have took : s.took d = s.inbound.take (s.inbound.length - (s.undergo d).1.inbound.length) := rfl
  generalize (s.undergo d).1 = s' at happened took ⊢
  cases happened with
  | resumed n =>
    have byCall := byCall_resume s n
    refine ⟨none, byCall.worked numbered, ?_⟩
    obtain ⟨_, _, _, _, _, frame⟩ := byCall.frame
    rw [took, frame]
    simp
  | @asked n topic what _ _ carried nothing =>
    refine ⟨some what.operation, carried.worked, ?_⟩
    rw [nothing]
    cases what <;> rfl
  | @aside _ op _ _ worked received => exact ⟨op, worked, received⟩
  | begun n goal =>
    refine ⟨none, .of_same numbered rfl rfl rfl rfl, ?_⟩
    rw [took]
    simp [begin]
  | abandoned n =>
    refine ⟨none, .of_same numbered rfl rfl rfl rfl, ?_⟩
    rw [took]
    simp [abandon, updateCall]

end Session

end LanguageClient
