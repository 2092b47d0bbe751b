import LanguageClient.Proofs.Session.Turns
import LanguageClient.Proofs.Workspace.Script

/-!
# Servers that do their part

A server does its part when it answers the handshake in time with a result that can be
read, and leaves its streams open until it is told to exit (`Cooperative`).  Until then the
dispatcher of its session stays open (`Unbroken`), and the handshake does not fail.
-/

set_option autoImplicit false

namespace LanguageClient.Session

open Dispatcher

variable {s : Session} {n : Nat} {a : Action}

/-- Whether a server has done its part so far; the first request is the handshake. -/
structure Cooperative (s : Session) : Prop where
  accepts : ∀ e, s.completion? 1 ≠ some (.failure e)
  readable : ∀ v, s.completion? 1 = some (.success v) → ∃ r, InitializeResult.ofJson? v = some r
  timely : ∀ m c deadline, s.call? m = some c → c.stage = .waiting 1 deadline →
    deadline ≤ s.clock → s.completion? 1 ≠ none
  streams : .leave ∉ s.sent →
    s.flow = .running ∧ s.listening = true ∧ s.watched = s.process.isSome

/-- Whether the answer to a handshake, if there is one, can be read. -/
def isReadable : Option Completion → Bool
  | some (.success v) => (InitializeResult.ofJson? v).isSome
  | some (.failure _) => false
  | some .terminated | some .dropped | none => true

/-- Whether a call does not wait for the first request when its time is up. -/
def isPatient (clock : Nat) (c : Call) : Bool :=
  match c.stage with
  | .waiting id deadline => id ≠ 1 || clock < deadline
  | _ => true

theorem cooperative_iff (s : Session) : s.Cooperative ↔ isReadable (s.completion? 1) = true ∧
    (s.completion? 1 = none → ∀ e ∈ s.calls, ∀ c ∈ s.call? e.1, isPatient s.clock c = true) ∧
    (.leave ∉ s.sent → s.flow = .running ∧ s.listening = true ∧ s.watched = s.process.isSome) := by
  constructor
  · intro h
    refine ⟨?_, fun silent e _ c hc => ?_, h.streams⟩
    · cases ended : s.completion? 1 with
      | none => rfl
      | some completion =>
        cases completion with
        | success v =>
          obtain ⟨r, read⟩ := h.readable v ended
          simp [isReadable, read]
        | failure e => exact absurd ended (h.accepts e)
        | terminated | dropped => rfl
    · unfold isPatient
      split
      · rename_i id deadline waits
        by_cases first : id = 1
        · subst first
          have early : ¬ deadline ≤ s.clock := fun late =>
            h.timely e.1 c deadline hc waits late silent
          simp [Nat.not_le.mp early]
        · simp [first]
      · rfl
  · rintro ⟨readable, patient, streams⟩
    refine ⟨?_, ?_, ?_, streams⟩
    · intro e failed
      rw [failed] at readable
      cases readable
    · intro v done
      rw [done] at readable
      exact Option.isSome_iff_exists.mp readable
    · intro m c deadline hc waits late silent
      have waiting := patient silent (m, c) (mem_of_call? hc) c hc
      simp only [isPatient, waits] at waiting
      simp at waiting
      omega

instance (s : Session) : Decidable s.Cooperative := decidable_of_iff _ (cooperative_iff s).symm

/-- Whether nothing has happened yet by which a session comes to its end. -/
structure Unbroken (s : Session) : Prop where
  opened : s.dispatcher.closed = false
  writable : s.dispatcher.writable = true
  running : s.stopped = false
  held : s.released = false
  stays : .close ∉ s.commands
  waited : .cancel 1 ∉ s.commands
  answered : ∀ c, (1, c) ∈ s.settled → c ≠ .terminated ∧ c ≠ .dropped

theorem unbroken_launch (language : String) (limit : Nat) (process : Option Nat) (clock : Nat) :
    (launch language limit process clock).Unbroken := by
  refine ⟨rfl, rfl, rfl, rfl, by simp [launch], by simp [launch], ?_⟩
  intro c ended
  cases ended

/-! ## What is sent -/

theorem sent_perform (s : Session) (n : Nat) (topic : Topic) (what : Ask) :
    s.sent <+: (s.perform n topic what).1.sent := by
  unfold perform
  cases what with
  | request | notify | subscribe =>
    simp only [applied_fst]
    exact List.prefix_append _ _

theorem sent_step (s : Session) (a : Action) : s.sent <+: (s.step a).1.sent := by
  have h := stepped s a
  generalize (s.step a).1 = s' at h ⊢
  cases h with
  | resumed n =>
    obtain ⟨_, _, _, _, _, frame⟩ := (byCall_resume s n).frame
    exact ⟨[], by rw [frame, List.append_nil]⟩
  | @asked n topic what rest => exact sent_perform { s with commands := rest } n topic what
  | cancelled | received | closed =>
    rw [applied_fst]
    exact List.prefix_append _ _
  | aside => exact List.prefix_rfl

/-! ## Steps -/

/-- A call that waits for the exit of the server is one that has ordered it. -/
def Ordered (s : Session) : Prop :=
  ∀ m c, s.call? m = some c → c.stage.isLeaving = true → .leave ∈ s.sent

/-- A call that goes on gives the session no cause to end. -/
theorem Unbroken.resume (h : s.Unbroken) (coop : s.Cooperative) (ordered : s.Ordered)
    (stays : .leave ∉ s.sent) (m : Nat) : (s.resume m).1.Unbroken := by
  obtain ⟨_, commands, _, _, _, frame⟩ := (byCall_resume s m).frame
  have given : .close ∉ (s.resume m).1.commands ∧ .cancel 1 ∉ (s.resume m).1.commands := by
    cases hc : s.call? m with
    | none =>
      have idle : s.resume m = (s, []) := by rw [Session.resume, hc]
      rw [idle]
      exact ⟨h.stays, h.waited⟩
    | some c =>
      rcases turned_resume hc with ⟨idle, -⟩ | ⟨stage, given, turn, turned⟩
      · rw [idle]
        exact ⟨h.stays, h.waited⟩
      · have heard : ∀ {outcome more}, Heard s c outcome more →
            Command.close ∉ more ∧ Command.cancel 1 ∉ more := by
          intro outcome more heard
          cases heard with
          | refused | done | completed => simp
          | @timedOut id deadline at_ silent late =>
            -- The request of the handshake is not given up, since it is answered in time.
            have other : id ≠ 1 := by
              rintro rfl
              exact coop.timely m c deadline hc at_ late silent
            simp [Ne.symm other]
        have more : Command.close ∉ given ∧ Command.cancel 1 ∉ given := by
          cases turn with
          | declines | asks | exits | awaits => simp
          | ends of => exact heard of
          | leaves of =>
            obtain ⟨close, cancel⟩ := heard of
            simp [close, cancel]
          | goesOn leaving => exact absurd (ordered m c hc leaving) stays
        rw [turned.commands, List.mem_append, List.mem_append]
        exact ⟨not_or.mpr ⟨h.stays, more.1⟩, not_or.mpr ⟨h.waited, more.2⟩⟩
  rw [frame] at given ⊢
  exact ⟨h.opened, h.writable, h.running, h.held, given.1, given.2, h.answered⟩

theorem Unbroken.applied {α : Type} {o : Outcome String α} (h : s.Unbroken)
    (opened : o.next.closed = false) (writable : o.next.writable = true)
    (settled : ∀ c, (1, c) ∈ settledBy o.effects → c ≠ .terminated ∧ c ≠ .dropped) :
    (s.applied o).1.Unbroken := by
  rw [applied_fst]
  refine ⟨opened, writable, h.running, h.held, h.stays, h.waited, ?_⟩
  intro c ended
  rcases List.mem_append.mp ended with before | now
  · exact h.answered c before
  · exact settled c now

theorem Unbroken.taken {command : Command} {rest : List Command} (h : s.Unbroken)
    (queue : s.commands = command :: rest) : ({ s with commands := rest } : Session).Unbroken := by
  have stays := h.stays
  have waited := h.waited
  rw [queue, List.mem_cons, not_or] at stays waited
  exact ⟨h.opened, h.writable, h.running, h.held, stays.2, waited.2, h.answered⟩

theorem Unbroken.perform (h : s.Unbroken) (n : Nat) (topic : Topic) (what : Ask) :
    (s.perform n topic what).1.Unbroken := by
  have answered : ∀ answer, (s.answer n topic answer).Unbroken := fun _ =>
    ⟨h.opened, h.writable, h.running, h.held, h.stays, h.waited, h.answered⟩
  unfold Session.perform
  cases what with
  | request method params =>
    have sends : s.dispatcher.request method params = ⟨{ s.dispatcher with
        nextId := s.dispatcher.nextId + 1
        pending := s.dispatcher.pending ++ [s.dispatcher.nextId] }, .ok s.dispatcher.nextId,
        [.sent (.request s.dispatcher.nextId method params)]⟩ := by
      simp [Dispatcher.request, h.opened, h.writable]
    refine (answered _).applied ?_ ?_ ?_ <;> rw [sends]
    · exact h.opened
    · exact h.writable
    · simp [settledBy]
  | notify method params =>
    have sends : s.dispatcher.notify method params =
        ⟨s.dispatcher, .ok (), [.sent (.notification method params)]⟩ := by
      simp [Dispatcher.notify, h.opened, h.writable]
    refine (answered _).applied ?_ ?_ ?_ <;> rw [sends]
    · exact h.opened
    · exact h.writable
    · simp [settledBy]
  | subscribe method =>
    simp only [Dispatcher.subscribe]
    split <;> exact (answered _).applied h.opened h.writable (by simp [settledBy])

theorem Unbroken.cancel (h : s.Unbroken) {id : Int} (other : 1 ≠ id) :
    (s.applied (s.dispatcher.cancel id)).1.Unbroken := by
  obtain ⟨-, pending, next⟩ := cancel_spec s.dispatcher id
  refine h.applied (by rw [next]; exact h.opened) (by rw [next]; exact h.writable) ?_
  intro c ended
  unfold Dispatcher.cancel at ended
  split at ended <;> simp [settledBy, other] at ended

/-- What the server sends can only end a request with what it answers. -/
theorem Unbroken.receive (h : s.Unbroken) (m : Message) :
    (s.applied (s.dispatcher.receive m)).1.Unbroken := by
  obtain ⟨-, pending, next⟩ := receive_spec s.dispatcher m
  refine h.applied (by rw [next]; exact h.opened) (by rw [next]; exact h.writable) ?_
  intro c ended
  cases m with
  | response id outcome =>
    simp only [Dispatcher.receive] at ended
    split at ended
    · have is : c = completionOf outcome := congrArg Prod.snd (List.mem_singleton.mp ended)
      rw [is]
      cases outcome <;> simp [completionOf]
    · cases ended
  | notification method params =>
    simp only [Dispatcher.receive] at ended
    split at ended <;> cases ended
  | request => cases ended

/-- While a server does its part its session stays unbroken, until the server is told to
exit. -/
theorem Unbroken.step (h : s.Unbroken) (coop : s.Cooperative) (ordered : s.Ordered)
    (after : (s.step a).1.Cooperative) (stays : .leave ∉ (s.step a).1.sent) :
    (s.step a).1.Unbroken := by
  have before : .leave ∉ s.sent := fun said => stays ((sent_step s a).subset said)
  obtain ⟨flow, listening, watched⟩ := coop.streams before
  by_cases exits : a = .processExits
  · subst exits
    have still := (after.streams stays).2.2
    simp only [Session.step, processExits] at still ⊢
    split
    · rename_i alive
      rw [if_pos alive, ← watched, alive] at still
      cases still
    · exact h
  have step := stepped s a
  generalize (s.step a).1 = s' at step after ⊢
  cases step with
  | resumed m => exact h.resume coop ordered before m
  | asked queue => exact (h.taken queue).perform _ _ _
  | @cancelled id rest queue =>
    have other : 1 ≠ id := by
      rintro rfl
      exact h.waited (by simp [queue])
    exact (h.taken queue).cancel other
  | @received m rest =>
    have rested : ({ s with inbound := rest } : Session).Unbroken :=
      ⟨h.opened, h.writable, h.running, h.held, h.stays, h.waited, h.answered⟩
    exact rested.receive m
  | closed _ _ _ cause =>
    rcases cause with ⟨-, last⟩ | ⟨-, close | ended⟩
    · simp [mayCommand, h.held] at last
    · exact absurd close h.stays
    · rw [flow] at ended
      cases ended
  | aside _ queue _ _ mute =>
    rcases queue with same | ⟨-, is⟩
    · subst same
      refine ⟨h.opened, ?_, h.running, h.held, h.stays, h.waited, h.answered⟩
      rcases mute with same | deaf
      · exact same.trans h.writable
      · rw [listening] at deaf
        cases deaf
    · exact absurd is exits

/-! ## The handshake -/

theorem result?_answer (s : Session) (n m : Nat) (topic : Topic) (answer : Answer) :
    (s.answer m topic answer).result? n = s.result? n := by
  rw [result?, Session.answer, call?_updateCall, result?]
  split
  · cases s.call? n with
    | none => rfl
    | some c =>
      rw [Option.map_some, Option.bind_some, Option.bind_some]
      split
      · rename_i asking
        simp [Call.result?, asking]
      · rfl
  · rfl

theorem result?_perform (s : Session) (n m : Nat) (topic : Topic) (what : Ask) :
    (s.perform m topic what).1.result? n = s.result? n := by
  unfold Session.perform
  cases what with
  | request | notify | subscribe =>
    simp only [applied_fst]
    exact result?_answer s n m topic _

section Course

variable {goal : Goal} {phase : Phase} {base : List Message} {v : View}

theorem Course.answered_main {answer : Answer}
    (h : Course n goal phase base (.answered .main answer) v) :
    ∃ what, goal.opening phase = .ask what ∧ answer = .ok (what.number? (nextNumber base)) := by
  generalize at_ : Stage.answered .main answer = stage at h
  cases h with
  | answered opens =>
    obtain rfl : answer = _ := by simpa using at_
    exact ⟨_, opens, rfl⟩
  | ready | asking | waiting | finished | greeted | refused | leaving | ordered | exiting
  | killed => cases at_

theorem Course.awaited {id : Int} {deadline : Nat}
    (h : Course n goal phase base (.waiting id deadline) v) : id = nextNumber base := by
  cases h with
  | waiting _ number => exact Ask.number?_eq number

theorem Course.ordered_exit {stage : Stage} (h : Course n goal phase base stage v)
    (leaving : stage.isLeaving = true) :
    (∃ grace, goal = .shutdown grace) ∧ .leave ∈ v.sent := by
  cases h with
  | ordered shutdown | exiting shutdown | killed shutdown =>
    exact ⟨⟨_, shutdown⟩, List.mem_append_right _ (List.mem_singleton_self _)⟩
  | ready | asking | answered | waiting | finished | greeted | refused | leaving => cases leaving

end Course

variable {params : InitializeParams}

theorem result?_handshake {c : Call} {v : Json} {r : InitializeResult} (hc : s.call? n = some c)
    (read : InitializeResult.ofJson? v = some r) :
    (s.handshake n (.ok v)).1.result? n = some (.ok r.toJson) := by
  simp only [Session.handshake, read]
  have held : (advancePhase { s with
      capabilities := s.capabilities <|> some (Capabilities.ofJson r.capabilities) }
        .launched .initialized).call? n = some c := by
    rw [call?_advancePhase]
    exact hc
  rw [result?, (turned_finish held _).call]
  rfl

/-- The handshake does not fail when its call goes on. -/
theorem Engaged.accepted_resume (h : s.Engaged n (.handshake params) .launched [])
    (coop : s.Cooperative) (unbroken : s.Unbroken) (no : ∀ e, s.result? n ≠ some (.error e)) :
    ∀ e, (s.resume n).1.result? n ≠ some (.error e) := by
  obtain ⟨⟨g, stage, number⟩, hc, is, course⟩ := h.call
  dsimp only at is course
  subst is
  intro e failed
  rcases turned_resume hc with ⟨idle, -⟩ | ⟨stage', given, turn, turned⟩
  · rw [idle] at failed
    exact no e failed
  have ends : stage' = .finished (.error e) := by
    rw [result?, turned.call, Option.bind_some, Call.result?_eq] at failed
    cases stage' <;> simp_all [Stage.result?]
  subst ends
  cases turn with
  | declines ready opens =>
    -- The call has begun while the server had just been launched.
    obtain rfl : stage = .ready := ready
    generalize hv : s.view = v at course
    cases course with
    | ready begins =>
      have now : s.phase = .launched := congrArg View.phase hv
      exact begins _ (now ▸ opens)
  | ends heard =>
    cases heard with
    | refused at_ =>
      obtain rfl : stage = .answered .main _ := at_
      obtain ⟨what, -, granted⟩ := course.answered_main
      cases granted
    | done at_ =>
      obtain rfl : stage = .answered .main _ := at_
      obtain ⟨what, opens, granted⟩ := course.answered_main
      obtain ⟨-, rfl⟩ := Goal.inPhase_eq_ask opens
      cases granted
    | @completed id deadline completion at_ found =>
      obtain rfl : stage = .waiting id deadline := at_
      obtain rfl : id = 1 := course.awaited
      have resumed : s.resume n = s.handshake n completion.toResult := by
        simp [Session.resume, hc, found, Session.conclude]
      obtain ⟨genuine, kept⟩ := unbroken.answered completion (mem_settled_of_completion? found)
      cases completion with
      | failure refusal => exact coop.accepts refusal found
      | terminated => exact genuine rfl
      | dropped => exact kept rfl
      | success v =>
        obtain ⟨r, read⟩ := coop.readable v found
        have result := result?_handshake hc read
        rw [resumed, Completion.toResult, result] at failed
        cases failed
    | timedOut at_ silent late =>
      obtain rfl : stage = .waiting _ _ := at_
      obtain rfl := course.awaited
      exact coop.timely n _ _ hc rfl late silent
  | goesOn leaving =>
    obtain ⟨⟨grace, shutdown⟩, -⟩ := course.ordered_exit leaving
    cases shutdown

theorem Engaged.accepted (h : s.Engaged n (.handshake params) .launched [])
    (coop : s.Cooperative) (unbroken : s.Unbroken) (live : (s.step a).1.dispatcher.closed = false)
    (no : ∀ e, s.result? n ≠ some (.error e)) : ∀ e, (s.step a).1.result? n ≠ some (.error e) := by
  intro e
  rcases step_cases s a live with same | ⟨m, rfl⟩ | ⟨m, topic, what, rest, -, performed⟩
  · rw [result?, same.call?]
    exact no e
  · by_cases own : m = n
    · subst own
      exact h.accepted_resume coop unbroken no e
    · rw [Session.step, resume_of_ended fun c => h.others m c own]
      exact no e
  · rw [performed, result?_perform]
    exact no e

end LanguageClient.Session
