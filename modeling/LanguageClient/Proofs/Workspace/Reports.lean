import LanguageClient.Proofs.Session.Delivery
import LanguageClient.Workspace.Lane

/-!
# Reports about diagnostics

Of a notification of diagnostics a session whose one handler is for them lets be seen what was
published, or that it is malformed.  Nothing else that is seen of a session is such a report.
-/

set_option autoImplicit false

namespace LanguageClient

/-! ## Reports -/

/-- What is logged about diagnostics that cannot be read. -/
def malformedPublication : LogRecord := .warn "malformed publishDiagnostics"

/-- Whether something seen is about published diagnostics. -/
def Sighting.isReport : Sighting → Bool
  | .published _ => true
  | .logged r => r = malformedPublication
  | .wrote _ => false

/-- What a message is to let be seen of diagnostics: what was published, or that it is
malformed. -/
def Message.report? : Message → Option Sighting
  | .notification method params =>
    if method = publishMethod then
      some (match Publication.ofJson? params with
        | some p => .published p
        | none => .logged malformedPublication)
    else none
  | _ => none

/-- A warning that begins otherwise is not one about diagnostics. -/
theorem isReport_warn {text : String} (other : text.toList.head? ≠ some 'm') :
    (Sighting.logged (.warn text)).isReport = false := by
  have different : text ≠ "malformed publishDiagnostics" := by
    rintro rfl
    exact other rfl
  simpa [Sighting.isReport, malformedPublication, LogRecord.warn] using different

theorem isReport_error (text : String) : (Sighting.logged (.error text)).isReport = false := by
  simp [Sighting.isReport, malformedPublication, LogRecord.warn, LogRecord.error]

namespace Session

open Dispatcher

variable {s s' : Session} {n : Nat}

/-- The reports among what a session lets be seen. -/
def reports (events : List Event) : List Sighting :=
  (events.filterMap Event.sighting?).filter Sighting.isReport

theorem reports_append (xs ys : List Event) : reports (xs ++ ys) = reports xs ++ reports ys := by
  simp [reports]

theorem reports_eq_nil {events : List Event}
    (none : ∀ e ∈ events, ∀ seen, e.sighting? = some seen → seen.isReport = false) :
    reports events = [] := by
  apply List.filter_eq_nil_iff.mpr
  intro seen member
  obtain ⟨e, he, is⟩ := List.mem_filterMap.mp member
  simp [none e he seen is]

theorem reports_warn {text : String} (other : text.toList.head? ≠ some 'm') :
    reports [.logged (.warn text)] = [] := by
  simp [reports, Event.sighting?, isReport_warn other]

/-! ## Operations of the dispatcher -/

/-- What the effect of an operation lets be seen. -/
def effectEvent? : Effect String → Option Event
  | .called method params => some (.notified method params)
  | .logged r => some (.logged r)
  | .sent _ | .completed .. => none

theorem absorbAll_snd (s : Session) (effects : List (Effect String)) :
    (s.absorbAll effects).2 = effects.filterMap effectEvent? := by
  induction effects generalizing s with
  | nil => rfl
  | cons e effects ih =>
    simp only [absorbAll, Moved.after, ih]
    cases e <;> rfl

theorem applied_snd {α : Type} (s : Session) (o : Outcome String α) :
    (s.applied o).2 = o.effects.filterMap effectEvent? := by
  rw [applied, absorbAll_snd]

theorem reports_close (d : Dispatcher String) :
    reports (d.close.effects.filterMap effectEvent?) = [] := by
  apply reports_eq_nil
  intro e he seen is
  obtain ⟨effect, member, made⟩ := List.mem_filterMap.mp he
  rcases List.mem_append.mp member with logged | completed
  · obtain ⟨r, hr, rfl⟩ := List.mem_map.mp logged
    obtain rfl : Event.logged r = e := Option.some.inj made
    obtain rfl : Sighting.logged r = seen := Option.some.inj is
    unfold rejection at hr
    split at hr
    · cases hr
    · obtain rfl := List.mem_singleton.mp hr
      apply isReport_warn
      simp
  · obtain ⟨id, -, rfl⟩ := List.mem_map.mp completed
    cases made

theorem reports_perform (s : Session) (n : Nat) (topic : Topic) (what : Ask) :
    reports (s.perform n topic what).2 = [] := by
  cases what with
  | request method params =>
    simp only [perform, applied_snd, request]
    split
    · rfl
    · split <;> rfl
  | notify method params =>
    simp only [perform, applied_snd, notify]
    split
    · rfl
    · split <;> rfl
  | subscribe method =>
    simp only [perform, applied_snd, subscribe]
    split <;> rfl

theorem reports_cancel (d : Dispatcher String) (id : Int) :
    reports ((d.cancel id).effects.filterMap effectEvent?) = [] := by
  unfold cancel
  split <;> rfl

/-- With one handler, for diagnostics, a message is reported as it is to be. -/
theorem reports_receive {d : Dispatcher String}
    (handlers : d.handlers = [(publishMethod, publishMethod)]) (m : Message) :
    reports ((d.receive m).effects.filterMap effectEvent?) = m.report?.toList := by
  cases m with
  | response id outcome =>
    simp only [receive]
    split
    · rfl
    · apply reports_warn
      simp
  | request id method params =>
    apply reports_warn
    simp
  | notification method params =>
    by_cases same : method = publishMethod
    · subst same
      have found : d.handler? publishMethod = some publishMethod := by
        simp [handler?, handlers]
      simp only [receive, found, Message.report?, if_true]
      cases read : Publication.ofJson? params with
      | some p => simp [reports, effectEvent?, Event.sighting?, read, Sighting.isReport]
      | none =>
        simp [reports, effectEvent?, Event.sighting?, read, Sighting.isReport,
          malformedPublication]
    · have absent : d.handler? method = none := by
        simp [handler?, handlers, Ne.symm same]
      simp only [receive, absent, Message.report?, if_neg same]
      apply reports_warn
      simp

/-! ## Steps of a session -/

theorem reports_handshake (s : Session) (n : Nat) (outcome : Except ClientError Json) :
    reports (s.handshake n outcome).2 = [] := by
  unfold handshake
  split
  · rfl
  · rfl
  · split <;> rfl

theorem reports_conclude (s : Session) (n : Nat) (goal : Goal) (outcome : Except ClientError Json) :
    reports (s.conclude n goal outcome).2 = [] := by
  unfold conclude
  split
  · exact reports_handshake s n _
  · rfl
  · rfl
  · apply reports_warn
    simp
  · rfl

theorem reports_timeOut (s : Session) (n : Nat) (goal : Goal) (id : Int) :
    reports (s.timeOut n goal id).2 = [] := by
  simp only [timeOut, Moved.after, reports_append, reports_conclude, List.append_nil]
  apply reports_warn
  simp

theorem reports_kill (s : Session) (n grace : Nat) : reports (s.kill n grace).2 = [] := by
  apply reports_warn
  simp

/-- A call that goes on reports nothing. -/
theorem reports_resume (s : Session) (n : Nat) : reports (s.resume n).2 = [] := by
  unfold resume
  split
  · rfl
  split
  · split <;> rfl
  · exact reports_conclude s n _ _
  · exact reports_conclude s n _ _
  · rfl
  · rfl
  · split
    · exact reports_conclude s n _ _
    · split
      · exact reports_timeOut s n _ _
      · rfl
  · split
    · rfl
    · split
      · exact reports_kill s n _
      · rfl
  · split <;> rfl
  · rfl
  · rfl
  · rfl

theorem reports_serve (s : Session) : reports s.serve.2 = [] := by
  unfold serve
  split
  · rfl
  · split
    · split
      · rfl
      · rw [applied_snd]
        exact reports_close _
    · rename_i command rest _
      cases command with
      | ask n topic what => exact reports_perform _ n topic what
      | cancel id =>
        simp only [applied_snd]
        exact reports_cancel _ id
      | close =>
        simp only [applied_snd]
        exact reports_close _

theorem reports_deliver (handlers : s.dispatcher.handlers = [(publishMethod, publishMethod)]) :
    reports s.deliver.2 = (s.took (.act .deliver)).filterMap Message.report? := by
  rw [took_deliver]
  unfold deliver
  split
  · rfl
  · split
    · rename_i m rest queue
      rw [applied_snd, reports_receive handlers, queue]
      cases reported : m.report? <;> simp [reported]
    · rename_i empty
      rw [empty]
      split
      · simp only [Moved.after, applied_snd, reports_append, reports_close, List.append_nil]
        split
        · rfl
        · apply reports_warn
          simp
      · rfl

theorem reports_serverWrites (s : Session) (bytes : Bytes) :
    reports (s.serverWrites bytes).2 = [] := by
  have remarks : ∀ outcomes : List (Except Message.Fault Message),
      reports (outcomes.filterMap remark?) = [] := by
    intro outcomes
    apply reports_eq_nil
    intro e he seen is
    obtain ⟨o, -, made⟩ := List.mem_filterMap.mp he
    cases o with
    | ok m => cases made
    | error f =>
      obtain rfl : Event.logged _ = e := Option.some.inj made
      obtain rfl : Sighting.logged _ = seen := Option.some.inj is
      apply isReport_warn
      simp
  simp only [serverWrites]
  split
  · exact remarks _
  · rw [reports_append, remarks, List.nil_append]
    simp [reports, Event.sighting?, isReport_error]

/-- With the handler in place a session reports what it takes in, and nothing else. -/
theorem reports_step (handlers : s.dispatcher.handlers = [(publishMethod, publishMethod)])
    (a : Action) : reports (s.step a).2 = (s.took (.act a)).filterMap Message.report? := by
  have complaints : ∀ lines : List Bytes,
      reports (lines.map fun l => .logged (.error (complaintText l))) = [] := by
    intro lines
    apply reports_eq_nil
    intro e he seen is
    obtain ⟨l, -, rfl⟩ := List.mem_map.mp he
    obtain rfl : Sighting.logged _ = seen := Option.some.inj is
    exact isReport_error _
  by_cases delivers : a = .deliver
  · subst delivers
    exact reports_deliver handlers
  · have none : s.took (.act a) = [] := took_of_ne_deliver s (by simpa using delivers)
    rw [none, List.filterMap_nil]
    cases a with
    | resume n => exact reports_resume s n
    | serve => exact reports_serve s
    | deliver => exact absurd rfl delivers
    | write =>
      simp only [step, write]
      split
      · rfl
      · split
        · rfl
        · apply reports_warn
          simp
    | serverWrites bytes => exact reports_serverWrites s bytes
    | serverComplains bytes =>
      simp only [step, serverComplains]
      split
      · rfl
      · exact complaints _
    | serverEndsComplaints => exact complaints _
    | serverCloses | serverStopsReading | processExits | advance => rfl

end Session

end LanguageClient
