import LanguageClient.Proofs.Session.Frames
import LanguageClient.Proofs.Wire.Streams

/-!
# What the reader of a session forwards

A session is read from one stream, in pieces, while anything else happens in between.  What
the reader puts into the queue of the dispatcher are the messages that all bytes up to the
end of the stream hold, in their order, and for every frame that holds none it logs one
warning.
-/

set_option autoImplicit false

namespace LanguageClient.Session

/-! ## Runs with callers -/

/-- What can happen to a session, its callers included. -/
inductive Deed where
  | act (a : Action)
  | begin (call : Nat) (goal : Goal)
  | abandon (call : Nat)
  | release
  deriving DecidableEq, Repr

/-- A session in which something happens. -/
def undergo (s : Session) : Deed → Moved
  | .act a => s.step a
  | .begin n goal => (s.begin n goal, [])
  | .abandon n => (s.abandon n, [])
  | .release => (s.release, [])

/-- A session after all that happens. -/
def through (s : Session) (deeds : List Deed) : Session :=
  deeds.foldl (fun s d => (s.undergo d).1) s

/-- The bytes that the server writes to its output. -/
def Deed.written : Deed → Bytes
  | .act (.serverWrites bytes) => bytes
  | _ => []

/-- The bytes of the server's output up to its end. -/
def heard (deeds : List Deed) : Bytes :=
  (deeds.takeWhile (· ≠ .act .serverCloses)).flatMap Deed.written

/-- The messages that come into the queue of the dispatcher. -/
def forwarded (s : Session) : List Deed → List Message
  | [] => []
  | d :: deeds =>
    (s.undergo d).1.inbound.drop s.inbound.length ++ (s.undergo d).1.forwarded deeds

/-- What is logged when the server writes to its output. -/
def told (s : Session) : List Deed → List Event
  | [] => []
  | d :: deeds =>
    (match d with
      | .act (.serverWrites _) => (s.undergo d).2
      | _ => []) ++ (s.undergo d).1.told deeds

theorem forwarded_append (s : Session) (xs ys : List Deed) :
    s.forwarded (xs ++ ys) = s.forwarded xs ++ (s.through xs).forwarded ys := by
  induction xs generalizing s with
  | nil => rfl
  | cons d xs ih => simp [forwarded, through, ih]

theorem told_append (s : Session) (xs ys : List Deed) :
    s.told (xs ++ ys) = s.told xs ++ (s.through xs).told ys := by
  induction xs generalizing s with
  | nil => rfl
  | cons d xs ih => simp [told, through, ih]

theorem forwarded_cons (s : Session) (d : Deed) (deeds : List Deed) :
    s.forwarded (d :: deeds) = s.forwarded [d] ++ (s.undergo d).1.forwarded deeds :=
  forwarded_append s [d] deeds

theorem told_cons (s : Session) (d : Deed) (deeds : List Deed) :
    s.told (d :: deeds) = s.told [d] ++ (s.undergo d).1.told deeds :=
  told_append s [d] deeds

theorem through_append (s : Session) (xs ys : List Deed) :
    s.through (xs ++ ys) = (s.through xs).through ys := by
  simp [through]

/-! ## What a stream is read as -/

/-- The messages among what is found in a stream. -/
def messagesOf (outcomes : List (Except Message.Fault Message)) : List Message :=
  outcomes.filterMap Except.toOption

/-- The faults of the frames that hold no message. -/
def faultsOf (outcomes : List (Except Message.Fault Message)) : List Message.Fault :=
  outcomes.filterMap fun
    | .ok _ => none
    | .error f => some f

/-- The warning about a frame that holds no message. -/
def dropRemark (f : Message.Fault) : Event :=
  .logged (.warn ("dropping malformed message: " ++ f.message))

/-- What is logged about the fault at which reading stops. -/
def stopRemark (f : Frame.Fault) : Event :=
  .logged (.error ("stopped reading server stdout: " ++ (ClientError.framing f.message).message))

/-- The messages that a stream holds. -/
def messagesIn (bytes : Bytes) : List Message := messagesOf (outcomes bytes).1

/-- What is logged about a stream: a warning for every frame that holds no message, and an
error where reading stops. -/
def remarksOn (bytes : Bytes) : List Event :=
  (faultsOf (outcomes bytes).1).map dropRemark ++ ((outcomes bytes).2.map stopRemark).toList

theorem messagesOf_append (xs ys : List (Except Message.Fault Message)) :
    messagesOf (xs ++ ys) = messagesOf xs ++ messagesOf ys :=
  List.filterMap_append

theorem faultsOf_append (xs ys : List (Except Message.Fault Message)) :
    faultsOf (xs ++ ys) = faultsOf xs ++ faultsOf ys :=
  List.filterMap_append

theorem messagesIn_nil : messagesIn [] = [] := by
  rw [messagesIn, outcomes_nil]
  rfl

theorem remarksOn_nil : remarksOn [] = [] := by
  rw [remarksOn, outcomes_nil]
  rfl

/-- The reader keeps just the messages. -/
theorem filterMap_message? (outcomes : List (Except Message.Fault Message)) :
    outcomes.filterMap message? = messagesOf outcomes := by
  have same : message? = Except.toOption := by
    funext o
    cases o <;> rfl
  rw [same, messagesOf]

/-- The reader warns about just the faults. -/
theorem filterMap_remark? (outcomes : List (Except Message.Fault Message)) :
    outcomes.filterMap remark? = (faultsOf outcomes).map dropRemark := by
  induction outcomes with
  | nil => rfl
  | cons o outcomes ih =>
    cases o with
    | ok m => exact ih
    | error f => exact congrArg (dropRemark f :: ·) ih

/-! ## One step -/

/-- What a step does to the reader's side of a session: it leaves it alone, takes a message
out of the queue, notices the end, or ends the dispatcher. -/
structure Unread (s s' : Session) : Prop where
  reader : s'.reader = s.reader
  flow : s'.flow = .running ↔ s.flow = .running
  inbound : s'.inbound.drop s.inbound.length = []
  stopped : s'.stopped = false → s.stopped = false

theorem Unread.of_eq {s s' : Session} (reader : s'.reader = s.reader) (flow : s'.flow = s.flow)
    (inbound : s'.inbound = s.inbound) (stopped : s'.stopped = s.stopped) : Unread s s' :=
  ⟨reader, by rw [flow], by simp [inbound], by rw [stopped]; exact id⟩

theorem ByCall.unread {n : Nat} {s s' : Session} (h : ByCall n s s') : Unread s s' := by
  obtain ⟨_, _, _, _, _, rfl⟩ := h.frame
  exact .of_eq rfl rfl rfl rfl

theorem unread_perform (s : Session) (n : Nat) (topic : Topic) (what : Ask) :
    Unread s (s.perform n topic what).1 := by
  unfold perform
  cases what with
  | request | notify | subscribe =>
    simp only [applied_fst]
    exact .of_eq rfl rfl rfl rfl

/-- Only the server's output touches the reader's side. -/
theorem unread_step (s : Session) {a : Action} (silent : a.isOutput = false) :
    Unread s (s.step a).1 := by
  have h := stepped s a
  generalize (s.step a).1 = s' at h ⊢
  cases h with
  | resumed n => exact (byCall_resume s n).unread
  | @asked n topic what rest =>
    have performed := unread_perform { s with commands := rest } n topic what
    exact ⟨performed.reader, performed.flow, performed.inbound, performed.stopped⟩
  | cancelled =>
    rw [applied_fst]
    exact .of_eq rfl rfl rfl rfl
  | received queue =>
    rw [applied_fst]
    refine ⟨rfl, Iff.rfl, ?_, id⟩
    simp only [queue, List.length_cons]
    exact List.drop_eq_nil_of_le (by omega)
  | closed running stops _ _ =>
    rw [applied_fst]
    exact ⟨rfl, running, by simp, stops⟩
  | aside _ _ quiet =>
    obtain ⟨rfl, rfl, rfl⟩ := quiet silent
    exact .of_eq rfl rfl rfl rfl

/-- Whether something that happens is not the server's output. -/
def Deed.isSilent : Deed → Bool
  | .act a => !a.isOutput
  | _ => true

theorem unread_undergo (s : Session) {d : Deed} (silent : d.isSilent = true) :
    Unread s (s.undergo d).1 := by
  cases d with
  | act a => exact unread_step s (by simpa [Deed.isSilent] using silent)
  | begin | abandon | release => exact .of_eq rfl rfl rfl rfl

/-- Something that happens is an output of the server, its end, or silent. -/
theorem Deed.cases (d : Deed) :
    (∃ bytes, d = .act (.serverWrites bytes)) ∨ d = .act .serverCloses ∨ d.isSilent = true := by
  match d with
  | .act (.serverWrites bytes) => exact .inl ⟨bytes, rfl⟩
  | .act .serverCloses => exact .inr (.inl rfl)
  | .act (.resume _) | .act .serve | .act .deliver | .act .write | .act (.serverComplains _)
  | .act .serverEndsComplaints | .act .serverStopsReading | .act .processExits
  | .act (.advance _) | .begin _ _ | .abandon _ | .release => exact .inr (.inr rfl)

/-- Nothing is written and nothing is told where the server's output is silent. -/
theorem Deed.written_of_isSilent {d : Deed} (silent : d.isSilent = true) (s : Session) :
    d.written = [] ∧ s.told [d] = [] := by
  unfold told told
  split
  · simp [isSilent, Action.isOutput] at silent
  · refine ⟨?_, rfl⟩
    unfold written
    split
    · simp [isSilent, Action.isOutput] at silent
    · rfl

/-- The end of the server's output stops the reader and is not taken for anything read. -/
theorem undergo_serverCloses (s : Session) :
    (s.undergo (.act .serverCloses)).1 = s.endOutput := rfl

/-- While the dispatcher runs, the reader can use all that it finds. -/
theorem undergo_serverWrites {s : Session} (running : s.stopped = false) (bytes : Bytes) :
    let found := (s.reader.feed bytes).2
    let s' := (s.undergo (.act (.serverWrites bytes))).1
    s'.inbound = s.inbound ++ messagesOf found.outcomes ∧
      s'.stopped = false ∧
      (s.undergo (.act (.serverWrites bytes))).2 =
        (faultsOf found.outcomes).map dropRemark ++ (found.fault.map stopRemark).toList ∧
      (found.fault = none → s'.reader = (s.reader.feed bytes).1 ∧ s'.flow = s.flow) ∧
      (found.fault.isSome → s'.reader = (s.reader.feed bytes).1.stop ∧ s'.flow ≠ .running) := by
  have all : s.usable (s.reader.feed bytes).2 = (s.reader.feed bytes).2 := by
    simp [usable, running]
  simp only [undergo, step, serverWrites, all, filterMap_message?, filterMap_remark?,
    Nat.lt_irrefl, if_false]
  cases (s.reader.feed bytes).2.fault with
  | none => simp [running]
  | some f =>
    refine ⟨rfl, running, rfl, by simp, fun _ => ⟨rfl, ?_⟩⟩
    simp only [endOutput]
    split
    · simp
    · rename_i notRunning
      exact notRunning

/-! ## Runs -/

/-- Whether the reader of a session is where some bytes have led it. -/
structure Reading (s : Session) (bytes : Bytes) : Prop where
  reader : s.reader.At bytes
  flow : s.flow = .running ↔ (outcomes bytes).2 = none

theorem Unread.reading {s s' : Session} (u : Unread s s') {bytes : Bytes} (h : s.Reading bytes) :
    s'.Reading bytes :=
  ⟨u.reader ▸ h.reader, u.flow.trans h.flow⟩

/-- A session that has stopped reading. -/
structure Deaf (s : Session) : Prop where
  reader : s.reader.stopped = true
  flow : s.flow ≠ .running

theorem running_of_undergo {s : Session} {d : Deed} (h : (s.undergo d).1.stopped = false) :
    s.stopped = false := by
  rcases d.cases with ⟨bytes, rfl⟩ | rfl | silent
  · simp only [undergo, step, serverWrites] at h
    split at h <;> exact h
  · exact h
  · exact (unread_undergo s silent).stopped h

theorem running_of_through {s : Session} {deeds : List Deed}
    (h : (s.through deeds).stopped = false) : s.stopped = false := by
  induction deeds generalizing s with
  | nil => exact h
  | cons d deeds ih => exact running_of_undergo (ih h)

/-- A session that has stopped reading forwards nothing and tells nothing of its server. -/
theorem Deaf.undergo {s : Session} (h : s.Deaf) (d : Deed) :
    (s.undergo d).1.Deaf ∧ s.forwarded [d] = [] ∧ s.told [d] = [] := by
  rcases d.cases with ⟨bytes, rfl⟩ | rfl | silent
  · have nothing : s.reader.feed bytes = (s.reader, ⟨[], none⟩) := by simp [Reader.feed, h.reader]
    have used : s.usable ⟨[], none⟩ = ⟨[], none⟩ := by simp [usable]
    simp only [forwarded, told, Session.undergo, step, serverWrites, nothing, used]
    exact ⟨⟨h.reader, h.flow⟩, by simp, by simp⟩
  · have flow : s.endOutput.flow = s.flow := by simp [endOutput, h.flow]
    refine ⟨⟨rfl, ?_⟩, ?_, rfl⟩
    · exact flow ▸ h.flow
    · simp [forwarded, undergo_serverCloses, endOutput]
  · have u := unread_undergo s silent
    refine ⟨⟨u.reader ▸ h.reader, fun e => h.flow (u.flow.mp e)⟩, ?_, ?_⟩
    · simp [forwarded, u.inbound]
    · exact (d.written_of_isSilent silent s).2

theorem Deaf.through {s : Session} (h : s.Deaf) (deeds : List Deed) :
    (s.through deeds).Deaf ∧ s.forwarded deeds = [] ∧ s.told deeds = [] := by
  induction deeds generalizing s with
  | nil => exact ⟨h, rfl, rfl⟩
  | cons d deeds ih =>
    obtain ⟨first, noMessage, noEvent⟩ := h.undergo d
    obtain ⟨last, noMessages, noEvents⟩ := ih first
    refine ⟨last, ?_, ?_⟩
    · rw [forwarded_cons, noMessage, noMessages, List.append_nil]
    · rw [told_cons, noEvent, noEvents, List.append_nil]

/-- Before the end of the output, a step reads what the server writes in it. -/
theorem Reading.undergo {s : Session} {bytes : Bytes} (h : s.Reading bytes) {d : Deed}
    (notEnd : d ≠ .act .serverCloses) (running : (s.undergo d).1.stopped = false) :
    (s.undergo d).1.Reading (bytes ++ d.written) ∧
      messagesIn (bytes ++ d.written) = messagesIn bytes ++ s.forwarded [d] ∧
      remarksOn (bytes ++ d.written) = remarksOn bytes ++ s.told [d] := by
  rcases d.cases with ⟨more, rfl⟩ | rfl | silent
  · cases before : (outcomes bytes).2 with
    | some f =>
      have deaf : s.Deaf := by
        refine ⟨?_, fun running => ?_⟩
        · rw [h.reader.stopped_eq, before, Option.isSome_some]
        · simp [h.flow.mp running] at before
      obtain ⟨after, noMessage, noEvent⟩ := deaf.undergo (.act (.serverWrites more))
      have same : outcomes (bytes ++ more) = outcomes bytes := by
        rcases outcomes_append bytes more with ⟨none, -⟩ | ⟨-, same⟩
        · simp [none] at before
        · exact same
      rw [noMessage, noEvent, Deed.written, List.append_nil, List.append_nil]
      refine ⟨⟨Reader.at_of_fault (by simp [same, before]) after.reader, ?_⟩, ?_, ?_⟩
      · simp [after.flow, same, before]
      · rw [messagesIn, same, messagesIn]
      · rw [remarksOn, same, remarksOn]
    | none =>
      obtain ⟨led, found, fault⟩ := Reader.feed_at h.reader more
      obtain ⟨inbound, -, seen, goesOn, stops⟩ :=
        undergo_serverWrites (running_of_undergo running) more
      replace fault : (outcomes (bytes ++ more)).2 = (s.reader.feed more).2.fault := by
        rw [fault, before]
        rfl
      have forwards : s.forwarded [.act (.serverWrites more)] =
          messagesOf (s.reader.feed more).2.outcomes := by
        simp [forwarded, inbound]
      have tells : s.told [.act (.serverWrites more)] =
          (faultsOf (s.reader.feed more).2.outcomes).map dropRemark ++
            ((s.reader.feed more).2.fault.map stopRemark).toList := by
        simp [told, seen]
      refine ⟨?_, ?_, ?_⟩
      · cases stop : (s.reader.feed more).2.fault with
        | none =>
          obtain ⟨reader, flow⟩ := goesOn stop
          rw [stop] at fault
          refine ⟨by rw [reader]; exact led, ?_⟩
          rw [flow, h.flow, before, Deed.written, fault]
        | some f =>
          obtain ⟨reader, flow⟩ := stops (by rw [stop]; rfl)
          rw [stop] at fault
          refine ⟨Reader.at_of_fault (by rw [Deed.written, fault]; rfl) (by rw [reader]; rfl), ?_⟩
          simp [flow, Deed.written, fault]
      · rw [messagesIn, Deed.written, found, messagesOf_append, forwards]
        rfl
      · rw [remarksOn, Deed.written, found, fault, faultsOf_append, tells]
        simp [remarksOn, before]
  · exact absurd rfl notEnd
  · have u := unread_undergo s silent
    obtain ⟨unwritten, untold⟩ := d.written_of_isSilent silent s
    rw [unwritten, List.append_nil, untold, List.append_nil]
    refine ⟨u.reading h, ?_, rfl⟩
    simp [forwarded, u.inbound]

/-- Before the end of the output, a run reads what the server writes in it. -/
theorem Reading.through {s : Session} {bytes : Bytes} (h : s.Reading bytes) {deeds : List Deed}
    (notEnd : .act .serverCloses ∉ deeds) (running : (s.through deeds).stopped = false) :
    (s.through deeds).Reading (bytes ++ deeds.flatMap Deed.written) ∧
      messagesIn (bytes ++ deeds.flatMap Deed.written) = messagesIn bytes ++ s.forwarded deeds ∧
      remarksOn (bytes ++ deeds.flatMap Deed.written) = remarksOn bytes ++ s.told deeds := by
  induction deeds generalizing s bytes with
  | nil => simpa [Session.through, forwarded, told] using h
  | cons d deeds ih =>
    obtain ⟨notFirst, notLater⟩ := not_or.mp (mt List.mem_cons.mpr notEnd)
    have mid : (s.undergo d).1.stopped = false := running_of_through running
    obtain ⟨read, messages, remarks⟩ := h.undergo (Ne.symm notFirst) mid
    obtain ⟨readAll, allMessages, allRemarks⟩ := ih read notLater running
    have bytesEq : bytes ++ (d :: deeds).flatMap Deed.written =
        bytes ++ d.written ++ deeds.flatMap Deed.written := by simp
    rw [bytesEq]
    refine ⟨readAll, ?_, ?_⟩
    · rw [allMessages, messages, List.append_assoc, ← forwarded_cons]
    · rw [allRemarks, remarks, List.append_assoc, ← told_cons]

/-! ## Dispatchers that have ended -/

/-- A stream that goes on holds the messages of its start first. -/
theorem messagesIn_prefix (bytes more : Bytes) :
    messagesIn bytes <+: messagesIn (bytes ++ more) := by
  unfold messagesIn
  rcases outcomes_append bytes more with ⟨-, start⟩ | ⟨-, same⟩
  · exact start.filterMap Except.toOption
  · simp [same]

/-- Nothing is forwarded to a dispatcher that has ended. -/
theorem forwarded_of_stopped {s : Session} {d : Deed} (ended : (s.undergo d).1.stopped = true) :
    s.forwarded [d] = [] := by
  rcases d.cases with ⟨bytes, rfl⟩ | rfl | silent
  · have before : s.stopped = true := by
      simp only [undergo, step, serverWrites] at ended
      split at ended <;> exact ended
    have none : (s.usable (s.reader.feed bytes).2).outcomes.filterMap message? = [] := by
      rw [List.filterMap_eq_nil_iff]
      intro o ho
      unfold usable at ho
      split at ho
      · exact Option.isNone_iff_eq_none.mp
          (List.mem_takeWhile_imp (p := fun o => (message? o).isNone) ho)
      · rename_i noMessage
        simp only [before, Bool.true_and, Bool.not_eq_true, List.any_eq_false] at noMessage
        simpa using noMessage o ho
    simp only [forwarded, undergo, step, serverWrites, none, List.append_nil]
    split <;> simp [endOutput]
  · simp [forwarded, undergo_serverCloses, endOutput]
  · simp [forwarded, (unread_undergo s silent).inbound]

theorem forwarded_nil_of_stopped {s : Session} (ended : s.stopped = true) (deeds : List Deed) :
    s.forwarded deeds = [] := by
  induction deeds generalizing s with
  | nil => rfl
  | cons d deeds ih =>
    have after : (s.undergo d).1.stopped = true := by
      by_contra running
      rw [running_of_undergo (Bool.eq_false_iff.mpr running)] at ended
      exact Bool.noConfusion ended
    rw [forwarded_cons, forwarded_of_stopped after, ih after, List.append_nil]

/-- Whatever becomes of the dispatcher, only messages of the stream are forwarded. -/
theorem Reading.forwarded_prefix {s : Session} {bytes : Bytes} (h : s.Reading bytes)
    {deeds : List Deed} (notEnd : .act .serverCloses ∉ deeds) :
    messagesIn bytes ++ s.forwarded deeds <+:
      messagesIn (bytes ++ deeds.flatMap Deed.written) := by
  induction deeds generalizing s bytes with
  | nil => simp [forwarded]
  | cons d deeds ih =>
    obtain ⟨notFirst, notLater⟩ := not_or.mp (mt List.mem_cons.mpr notEnd)
    rw [forwarded_cons]
    cases running : (s.undergo d).1.stopped with
    | true =>
      rw [forwarded_of_stopped running, forwarded_nil_of_stopped running, List.append_nil,
        List.append_nil]
      exact messagesIn_prefix bytes _
    | false =>
      obtain ⟨read, messages, -⟩ := h.undergo (Ne.symm notFirst) running
      have rest := ih read notLater
      rw [messages] at rest
      simpa using rest

/-! ## Streams from the start -/

theorem reading_launch (language : String) (limit : Nat) (process : Option Nat) (clock : Nat) :
    (launch language limit process clock).Reading [] :=
  ⟨Reader.start_at, by simp [launch, outcomes_nil]⟩

theorem ne_end_of_not_mem {deeds : List Deed} (notEnd : .act .serverCloses ∉ deeds) :
    ∀ d ∈ deeds, decide (d ≠ .act .serverCloses) = true := fun _ hd =>
  decide_eq_true fun e => notEnd (e ▸ hd)

theorem heard_eq {deeds : List Deed} (notEnd : .act .serverCloses ∉ deeds) :
    heard deeds = deeds.flatMap Deed.written := by
  rw [heard, List.takeWhile_eq_self_iff.mpr (ne_end_of_not_mem notEnd)]

/-- Nothing is heard after the end of the output. -/
theorem heard_append {before : List Deed} (notEnd : .act .serverCloses ∉ before)
    (rest : List Deed) :
    heard (before ++ .act .serverCloses :: rest) = before.flatMap Deed.written := by
  rw [heard, List.takeWhile_append_of_pos (ne_end_of_not_mem notEnd),
    List.takeWhile_cons_of_neg (by simp), List.append_nil]

/-- In every run of a session from its start, the messages forwarded to the dispatcher begin
what the output of the server holds; and as long as the dispatcher runs, they are all of it,
every frame without a message is warned about, and reading goes on until the first fault or
the end. -/
theorem forwarded_launch (language : String) (limit : Nat) (process : Option Nat) (clock : Nat)
    (deeds : List Deed) :
    let s := launch language limit process clock
    s.forwarded deeds <+: messagesIn (heard deeds) ∧
      ((s.through deeds).stopped = false →
        s.forwarded deeds = messagesIn (heard deeds) ∧
          s.told deeds = remarksOn (heard deeds) ∧
          ((s.through deeds).flow = .running ↔
            (outcomes (heard deeds)).2 = none ∧ .act .serverCloses ∉ deeds)) := by
  intro s
  have start : s.Reading [] := reading_launch language limit process clock
  by_cases ends : .act .serverCloses ∈ deeds
  · -- Only what comes before the first end of the output is heard, and after it the
    -- session is deaf.
    obtain ⟨before, rest, rfl, notEnd⟩ := List.eq_append_cons_of_mem ends
    have prefixOf := start.forwarded_prefix notEnd
    rw [messagesIn_nil, List.nil_append, List.nil_append] at prefixOf
    have deaf : ((s.through before).undergo (.act .serverCloses)).1.Deaf := by
      refine ⟨rfl, ?_⟩
      simp only [undergo_serverCloses, endOutput]
      split
      · simp
      · rename_i notRunning
        exact notRunning
    obtain ⟨after, noMessages, noEvents⟩ := deaf.through rest
    have noMore : (s.through before).forwarded [.act .serverCloses] = [] := by
      simp [forwarded, undergo_serverCloses, endOutput]
    have forwards : s.forwarded (before ++ .act .serverCloses :: rest) = s.forwarded before := by
      rw [forwarded_append, forwarded_cons, noMessages, noMore, List.append_nil, List.append_nil]
    have tells : s.told (before ++ .act .serverCloses :: rest) = s.told before := by
      rw [told_append, told_cons, noEvents, List.append_nil]
      exact List.append_nil _
    rw [forwards, tells, heard_append notEnd]
    refine ⟨prefixOf, fun running => ?_⟩
    have mid : (s.through before).stopped = false :=
      running_of_through (by rw [← through_append]; exact running)
    obtain ⟨-, messages, remarks⟩ := start.through notEnd mid
    rw [messagesIn_nil, List.nil_append, List.nil_append] at messages
    rw [remarksOn_nil, List.nil_append, List.nil_append] at remarks
    refine ⟨messages.symm, remarks.symm, ?_⟩
    have deafAtLast : (s.through (before ++ .act .serverCloses :: rest)).flow ≠ .running := by
      rw [through_append]
      exact after.flow
    simp [deafAtLast]
  · rw [heard_eq ends]
    have prefixOf := start.forwarded_prefix ends
    rw [messagesIn_nil, List.nil_append, List.nil_append] at prefixOf
    refine ⟨prefixOf, fun running => ?_⟩
    obtain ⟨read, messages, remarks⟩ := start.through ends running
    rw [messagesIn_nil, List.nil_append, List.nil_append] at messages
    rw [remarksOn_nil, List.nil_append, List.nil_append] at remarks
    refine ⟨messages.symm, remarks.symm, ?_⟩
    rw [read.flow, List.nil_append]
    simp [ends]

/-- Streams resynchronise: behind frames reading goes on as if they had not been there,
whatever their bodies are; a stream that is cut gives the first outcomes of the whole one and
no fault of its own; and a session forwards and logs just these outcomes, however the bytes
come and whatever else happens in between. -/
theorem streams_resynchronise :
    (∀ (bodies : List Bytes) (rest : Bytes), (∀ b ∈ bodies, b.length ≤ Frame.maxBody) →
      outcomes (bodies.flatMap Frame.encode ++ rest) =
        (bodies.map Message.parse? ++ (outcomes rest).1, (outcomes rest).2)) ∧
    (∀ bytes more : Bytes,
      ((outcomes bytes).2 = none ∧ (outcomes bytes).1 <+: (outcomes (bytes ++ more)).1) ∨
        ((outcomes bytes).2.isSome ∧ outcomes (bytes ++ more) = outcomes bytes)) ∧
    (∀ (language : String) (limit : Nat) (process : Option Nat) (clock : Nat) (deeds : List Deed),
      let s := launch language limit process clock
      s.forwarded deeds <+: messagesIn (heard deeds) ∧
        ((s.through deeds).stopped = false →
          s.forwarded deeds = messagesIn (heard deeds) ∧
            s.told deeds = remarksOn (heard deeds) ∧
            ((s.through deeds).flow = .running ↔
              (outcomes (heard deeds)).2 = none ∧ .act .serverCloses ∉ deeds))) :=
  ⟨fun _ rest fit => outcomes_frames fit rest, outcomes_append, forwarded_launch⟩

/-- A message between a body that is no text and an empty one is forwarded, both are warned
about, and a header line without a colon ends the reading; the stream comes in two pieces. -/
theorem streams_resynchronise_malformed :
    let note : Message := .notification "m" .null
    let bytes := [[0xFF], note.body, []].flatMap Frame.encode ++ [120, 10]
    let s := launch "rust" 1000 none 0
    let deeds : List Deed :=
      [.act (.serverWrites (bytes.take 30)), .act .deliver, .act (.serverWrites (bytes.drop 30))]
    outcomes bytes =
        ([.error .invalidJson, .ok note, .error .invalidJson], some (.noColon "x")) ∧
      s.forwarded deeds = [note] ∧
      s.told deeds =
        [.logged (.warn "dropping malformed message: invalid JSON"),
          .logged (.warn "dropping malformed message: invalid JSON"),
          .logged (.error
            "stopped reading server stdout: framing error: malformed header: x")] ∧
      (s.through deeds).flow ≠ .running := by
  intro note bytes s deeds
  have stop : outcomes [120, 10] = ([], some (.noColon "x")) := by decide +kernel
  have parsed : Message.parse? note.body = .ok note := by decide +kernel
  have found : outcomes bytes =
      ([.error .invalidJson, .ok note, .error .invalidJson], some (.noColon "x")) := by
    rw [streams_resynchronise.1 [[0xFF], note.body, []] [120, 10] (by decide +kernel), stop,
      List.map_cons, List.map_cons, parsed]
    rfl
  have running : (s.through deeds).stopped = false := by decide +kernel
  have all : heard deeds = bytes := by decide +kernel
  obtain ⟨forwards, tells, flow⟩ := (streams_resynchronise.2.2 "rust" 1000 none 0 deeds).2 running
  rw [all] at forwards tells flow
  refine ⟨found, ?_, ?_, ?_⟩
  · rw [forwards, messagesIn, found]
    rfl
  · rw [tells, remarksOn, found]
    decide +kernel
  · rw [Ne, flow, found]
    simp

end LanguageClient.Session
