import LanguageClient.Proofs.Session.Frames

/-!
# What a session puts on the wire

Only a command that a call has asked for can put a message on the wire, and only while the
dispatcher is open: a step after which the dispatcher is closed has sent nothing, and a
closed dispatcher stays closed.  `View` is the part of a session that decides what can be
sent next; `step_cases` tells the steps that can change it.
-/

set_option autoImplicit false

namespace LanguageClient

/-- Whether a message is a request. -/
def Message.isRequest : Message → Bool
  | .request .. => true
  | _ => false

/-- The number of the request that follows some messages. -/
def nextNumber (sent : List Message) : Int := sent.countP Message.isRequest + 1

namespace Ask

/-- The messages that an ask puts on the wire, a request under the given number. -/
def messages (id : Int) : Ask → List Message
  | .request method params => [.request id method params]
  | .notify method params => [.notification method params]
  | .subscribe _ => []

/-- The number under which an ask waits for a response. -/
def number? (id : Int) : Ask → Option Int
  | .request .. => some id
  | .notify .. | .subscribe _ => none

theorem number?_eq {what : Ask} {k id : Int} (number : what.number? k = some id) : id = k := by
  cases what with
  | request => exact (Option.some.inj number).symm
  | notify | subscribe => cases number

end Ask

namespace Dispatcher

variable {H : Type}

/-- An outcome after which the dispatcher is closed has sent nothing, and it does not open a
dispatcher. -/
structure Guarded {α : Type} (d : Dispatcher H) (o : Outcome H α) : Prop where
  sent : o.next.closed = true → sentBy o.effects = []
  closed : d.closed = true → o.next.closed = true

theorem guarded_request (d : Dispatcher H) (method : String) (params : Json) :
    Guarded d (d.request method params) := by
  unfold request
  split
  · exact ⟨fun _ => rfl, id⟩
  · rename_i notClosed
    split
    · exact ⟨fun closed => absurd closed notClosed, fun closed => absurd closed notClosed⟩
    · exact ⟨fun _ => rfl, fun _ => rfl⟩

theorem guarded_notify (d : Dispatcher H) (method : String) (params : Json) :
    Guarded d (d.notify method params) := by
  unfold notify
  split
  · exact ⟨fun _ => rfl, id⟩
  · rename_i notClosed
    split
    · exact ⟨fun closed => absurd closed notClosed, fun closed => absurd closed notClosed⟩
    · exact ⟨fun _ => rfl, fun _ => rfl⟩

theorem guarded_subscribe (d : Dispatcher H) (method : String) (handler : H) :
    Guarded d (d.subscribe method handler) := by
  unfold subscribe
  split <;> exact ⟨fun _ => rfl, id⟩

/-- A request that leaves the dispatcher open has been sent under the next number. -/
theorem request_of_live {d : Dispatcher H} {method : String} {params : Json}
    (live : (d.request method params).next.closed = false) :
    d.request method params =
      ⟨{ d with nextId := d.nextId + 1, pending := d.pending ++ [d.nextId] }, .ok d.nextId,
        [.sent (.request d.nextId method params)]⟩ := by
  unfold request at live ⊢
  split at live
  · rename_i closed
    simp [closed] at live
  · rename_i notClosed
    split at live
    · rename_i writable
      rw [if_neg notClosed, if_pos writable]
    · cases live

theorem notify_of_live {d : Dispatcher H} {method : String} {params : Json}
    (live : (d.notify method params).next.closed = false) :
    d.notify method params = ⟨d, .ok (), [.sent (.notification method params)]⟩ := by
  unfold notify at live ⊢
  split at live
  · rename_i closed
    simp [closed] at live
  · rename_i notClosed
    split at live
    · rename_i writable
      rw [if_neg notClosed, if_pos writable]
    · cases live

theorem subscribe_of_free {d : Dispatcher H} (free : d.handlers = []) (method : String)
    (handler : H) :
    d.subscribe method handler = ⟨{ d with handlers := [(method, handler)] }, .ok (), []⟩ := by
  simp [subscribe, handler?, free]

/-- What comes from the server sends nothing and changes only the table of requests. -/
theorem receive_spec (d : Dispatcher H) (m : Message) :
    sentBy (d.receive m).effects = [] ∧
      ∃ pending, (d.receive m).next = { d with pending := pending } := by
  cases m with
  | response id outcome =>
    simp only [receive]
    split <;> exact ⟨rfl, _, rfl⟩
  | notification method params =>
    simp only [receive]
    split <;> exact ⟨rfl, _, rfl⟩
  | request id method params => exact ⟨rfl, _, rfl⟩

theorem cancel_spec (d : Dispatcher H) (id : Int) :
    sentBy (d.cancel id).effects = [] ∧
      ∃ pending, (d.cancel id).next = { d with pending := pending } := by
  unfold cancel
  split <;> exact ⟨rfl, _, rfl⟩

theorem sentBy_close (d : Dispatcher H) : sentBy d.close.effects = [] := by
  simp only [close, failAll, sentBy, List.filterMap_append, List.append_eq_nil_iff,
    List.filterMap_eq_nil_iff, List.mem_map]
  constructor
  · rintro e ⟨r, -, rfl⟩
    rfl
  · rintro e ⟨id, -, rfl⟩
    rfl

end Dispatcher

namespace Session

open Dispatcher

/-! ## The part that decides what is sent -/

/-- What decides which messages a session can send next. -/
structure View where
  /-- The commands that calls have asked for. -/
  asks : List Command
  sent : List Message
  phase : Phase
  handlers : List (String × String)

/-- The view of a session. -/
def view (s : Session) : View := ⟨s.asks, s.sent, s.phase, s.dispatcher.handlers⟩

/-- Whether two sessions agree in everything that calls and their messages depend on. -/
structure Same (s s' : Session) : Prop where
  calls : s'.calls = s.calls
  view : s'.view = s.view
  nextId : s'.dispatcher.nextId = s.dispatcher.nextId

theorem Same.refl (s : Session) : Same s s := ⟨rfl, rfl, rfl⟩

theorem Same.call? {s s' : Session} (h : Same s s') (n : Nat) : s'.call? n = s.call? n := by
  rw [Session.call?, h.calls, Session.call?]

/-- Operations on the table of requests alone change nothing that calls depend on. -/
theorem same_applied {α : Type} {s : Session} {o : Outcome String α}
    (silent : sentBy o.effects = [])
    (table : ∃ pending, o.next = { s.dispatcher with pending := pending }) :
    Same s (s.applied o).1 := by
  obtain ⟨pending, next⟩ := table
  rw [applied_fst]
  refine ⟨rfl, ?_, by simp [next]⟩
  simp [view, asks, silent, next]

/-- The ways in which a step can leave a dispatcher open: nothing that calls depend on
changes, a call goes on, or a command that a call has asked for is carried out. -/
theorem step_cases (s : Session) (a : Action) (live : (s.step a).1.dispatcher.closed = false) :
    Same s (s.step a).1 ∨
      (∃ n, a = .resume n) ∨
      ∃ n topic what rest, s.commands = .ask n topic what :: rest ∧
        (s.step a).1 = (({ s with commands := rest } : Session).perform n topic what).1 := by
  have h := stepped s a
  generalize (s.step a).1 = s' at h live ⊢
  cases h with
  | resumed n => exact .inr (.inl ⟨n, rfl⟩)
  | @asked n topic what rest queue => exact .inr (.inr ⟨n, topic, what, rest, queue, rfl⟩)
  | @cancelled id rest queue =>
    obtain ⟨silent, table⟩ := cancel_spec s.dispatcher id
    have same : Same { s with commands := rest } (applied { s with commands := rest } _).1 :=
      same_applied silent table
    refine .inl ⟨same.calls, same.view.trans ?_, same.nextId⟩
    simp [view, asks, queue, Command.isAsk]
  | @received m rest =>
    obtain ⟨silent, table⟩ := receive_spec s.dispatcher m
    have same : Same { s with inbound := rest } (applied { s with inbound := rest } _).1 :=
      same_applied silent table
    exact .inl ⟨same.calls, same.view, same.nextId⟩
  | closed =>
    -- This step closes the dispatcher.
    rw [applied_fst] at live
    simp [close, failAll] at live
  | aside _ queue =>
    refine .inl ⟨rfl, ?_, rfl⟩
    rcases queue with rfl | ⟨rfl, -⟩
    · rfl
    · simp [view, asks, Command.isAsk]

/-! ## Carrying commands out -/

/-- What carrying out an ask makes of a session whose dispatcher stays open. -/
structure Performed (s s' : Session) (n : Nat) (topic : Topic) (what : Ask) : Prop where
  calls : s'.calls = (s.answer n topic (.ok (what.number? s.dispatcher.nextId))).calls
  asks : s'.asks = s.asks
  sent : s'.sent = s.sent ++ what.messages s.dispatcher.nextId
  phase : s'.phase = s.phase
  settled : s'.settled = s.settled
  numbered : s.dispatcher.nextId = nextNumber s.sent → s'.dispatcher.nextId = nextNumber s'.sent

/-- An ask that leaves the dispatcher open has been carried out. -/
theorem performed_of_live {s : Session} {n : Nat} {topic : Topic} {what : Ask}
    (live : (s.perform n topic what).1.dispatcher.closed = false)
    (free : ∀ method, what = .subscribe method → s.dispatcher.handlers = []) :
    Performed s (s.perform n topic what).1 n topic what := by
  unfold perform at live ⊢
  cases what with
  | request method params =>
    simp only [applied_fst] at live ⊢
    rw [request_of_live live]
    refine ⟨rfl, rfl, rfl, rfl, List.append_nil _, fun numbered => ?_⟩
    simp only [sentBy, List.filterMap_cons, List.filterMap_nil]
    rw [numbered]
    simp [nextNumber, answer, updateCall, Message.isRequest]
  | notify method params =>
    simp only [applied_fst] at live ⊢
    rw [notify_of_live live]
    refine ⟨rfl, rfl, rfl, rfl, List.append_nil _, fun numbered => ?_⟩
    simp only [sentBy, List.filterMap_cons, List.filterMap_nil]
    rw [numbered]
    simp [nextNumber, answer, updateCall, Message.isRequest]
  | subscribe method =>
    simp only [applied_fst]
    rw [subscribe_of_free (free method rfl)]
    refine ⟨rfl, rfl, rfl, rfl, List.append_nil _, fun numbered => ?_⟩
    simpa [sentBy, answer, updateCall] using numbered

/-! ## Closed dispatchers -/

/-- Whether one session comes from another without anything sent by a closed dispatcher. -/
structure Quiet (s s' : Session) : Prop where
  sent : s'.dispatcher.closed = true → s'.sent = s.sent
  closed : s.dispatcher.closed = true → s'.dispatcher.closed = true

theorem quiet_perform (s : Session) (n : Nat) (topic : Topic) (what : Ask) :
    Quiet s (s.perform n topic what).1 := by
  have answered : ∀ {α : Type} (a : Answer) (o : Outcome String α), Guarded s.dispatcher o →
      Quiet s ((s.answer n topic a).applied o).1 := by
    intro α a o guarded
    rw [applied_fst]
    refine ⟨fun closed => ?_, guarded.closed⟩
    simp [guarded.sent closed, answer, updateCall]
  unfold perform
  cases what with
  | request method params => exact answered _ _ (guarded_request s.dispatcher method params)
  | notify method params => exact answered _ _ (guarded_notify s.dispatcher method params)
  | subscribe method => exact answered _ _ (guarded_subscribe s.dispatcher method method)

/-- A step that leaves the dispatcher closed has sent nothing, and closed it stays. -/
theorem quiet_step (s : Session) (a : Action) : Quiet s (s.step a).1 := by
  have h := stepped s a
  generalize (s.step a).1 = s' at h ⊢
  cases h with
  | resumed n =>
    obtain ⟨_, _, _, _, _, frame⟩ := (byCall_resume s n).frame
    rw [frame]
    exact ⟨fun _ => rfl, id⟩
  | @asked n topic what rest =>
    have quiet := quiet_perform { s with commands := rest } n topic what
    exact ⟨quiet.sent, quiet.closed⟩
  | @cancelled id rest =>
    obtain ⟨silent, pending, next⟩ := cancel_spec s.dispatcher id
    rw [applied_fst]
    exact ⟨fun _ => by simp [silent], fun closed => by simp [next, closed]⟩
  | @received m rest =>
    obtain ⟨silent, pending, next⟩ := receive_spec s.dispatcher m
    rw [applied_fst]
    exact ⟨fun _ => by simp [silent], fun closed => by simp [next, closed]⟩
  | closed =>
    rw [applied_fst]
    exact ⟨fun _ => by simp [sentBy_close], fun _ => rfl⟩
  | aside => exact ⟨fun _ => rfl, id⟩

end Session

end LanguageClient
