import LanguageClient.Proofs.Session.Progress

/-!
# What the dispatcher takes in

Between the reader and the dispatcher there is a queue, and the dispatcher takes commands from
another one in between.  Whatever it chooses, it takes in the messages of the stream in their
order and each of them once, and when it has seen the end it has taken in all of them.
-/

set_option autoImplicit false

namespace LanguageClient.Session

open Dispatcher

variable {s s' : Session}

/-! ## The queue of messages -/

/-- The messages that the dispatcher takes in. -/
def dispatched (s : Session) : List Deed → List Message
  | [] => []
  | d :: deeds => s.took d ++ (s.undergo d).1.dispatched deeds

theorem dispatched_append (s : Session) (xs ys : List Deed) :
    s.dispatched (xs ++ ys) = s.dispatched xs ++ (s.through xs).dispatched ys := by
  induction xs generalizing s with
  | nil => rfl
  | cons d xs ih => simp [dispatched, through, ih]

/-- Where the server's output is silent, only the dispatcher takes a message off the queue. -/
theorem inbound_step (s : Session) {a : Action} (silent : a.isOutput = false) :
    (s.step a).1.inbound = s.inbound ∨
      a = .deliver ∧ ∃ m, s.inbound = m :: (s.step a).1.inbound := by
  have h := stepped s a
  generalize (s.step a).1 = s' at h ⊢
  cases h with
  | resumed n =>
    obtain ⟨_, _, _, _, _, frame⟩ := (byCall_resume s n).frame
    left
    rw [frame]
  | @asked n topic what rest =>
    left
    cases what with
    | request | notify | subscribe => simp only [perform, applied_fst, answer, updateCall]
  | @received m rest queue =>
    right
    rw [applied_fst]
    exact ⟨rfl, m, queue⟩
  | cancelled | closed =>
    left
    rw [applied_fst]
  | aside _ _ quiet =>
    obtain ⟨-, rfl, -⟩ := quiet silent
    exact .inl rfl

theorem inbound_undergo (s : Session) {d : Deed} (silent : d.isSilent = true) :
    (s.undergo d).1.inbound = s.inbound ∨
      d = .act .deliver ∧ ∃ m, s.inbound = m :: (s.undergo d).1.inbound := by
  cases d with
  | act a =>
    rcases inbound_step s (a := a) (by simpa [Deed.isSilent] using silent) with
      same | ⟨rfl, m, queue⟩
    · exact .inl same
    · exact .inr ⟨rfl, m, queue⟩
  | begin | abandon | release => exact .inl rfl

/-- The message that the dispatcher takes in, if it takes one. -/
theorem took_deliver (s : Session) :
    s.took (.act .deliver) = if s.stopped then [] else s.inbound.head?.toList := by
  simp only [took, undergo, step, deliver]
  split
  · simp
  · split
    · rename_i queue
      simp [applied_fst, queue]
    · rename_i empty
      simp [empty]

/-- Nobody else takes a message. -/
theorem took_of_ne_deliver (s : Session) {d : Deed} (other : d ≠ .act .deliver) :
    s.took d = [] := by
  rcases d.cases with ⟨bytes, rfl⟩ | rfl | silent
  · exact took_serverWrites s bytes
  · exact took_serverCloses s
  · rcases inbound_undergo s silent with same | ⟨delivers, -⟩
    · exact took_of_length_le (by rw [same])
    · exact absurd delivers other

/-- The messages that were waiting and those that are forwarded are taken in or wait. -/
theorem took_append_inbound (s : Session) (d : Deed) :
    s.took d ++ (s.undergo d).1.inbound = s.inbound ++ s.forwarded [d] := by
  have forwards : s.forwarded [d] = (s.undergo d).1.inbound.drop s.inbound.length :=
    List.append_nil _
  have grows : s.inbound <+: (s.undergo d).1.inbound →
      s.took d ++ (s.undergo d).1.inbound = s.inbound ++ s.forwarded [d] := by
    rintro ⟨new, all⟩
    have none : s.took d = [] := took_of_length_le (by simp [← all])
    rw [none, forwards, ← all, List.nil_append, List.drop_left]
  rcases d.cases with ⟨bytes, rfl⟩ | rfl | silent
  · apply grows
    simp only [undergo, step, serverWrites]
    split <;> exact List.prefix_append _ _
  · apply grows
    exact List.prefix_rfl
  · rcases inbound_undergo s silent with same | ⟨-, m, queue⟩
    · exact grows (same ▸ List.prefix_rfl)
    · have none : s.forwarded [d] = [] := by
        rw [forwards]
        exact (unread_undergo s silent).inbound
      have one : s.inbound.length - (s.undergo d).1.inbound.length = 1 := by
        rw [queue, List.length_cons, Nat.add_sub_cancel_left]
      rw [none, List.append_nil, took, one, queue]
      rfl

/-- In a run, what was waiting and what is forwarded is taken in or still waits. -/
theorem dispatched_append_inbound (s : Session) (deeds : List Deed) :
    s.dispatched deeds ++ (s.through deeds).inbound = s.inbound ++ s.forwarded deeds := by
  induction deeds generalizing s with
  | nil => simp [dispatched, through, forwarded]
  | cons d deeds ih =>
    have later := ih (s.undergo d).1
    have now := took_append_inbound s d
    calc s.dispatched (d :: deeds) ++ (s.through (d :: deeds)).inbound
        = s.took d ++ ((s.undergo d).1.dispatched deeds ++
            ((s.undergo d).1.through deeds).inbound) := List.append_assoc _ _ _
      _ = s.took d ++ (s.undergo d).1.inbound ++ (s.undergo d).1.forwarded deeds := by
          rw [later, List.append_assoc]
      _ = s.inbound ++ s.forwarded (d :: deeds) := by
          rw [now, List.append_assoc, ← forwarded_cons]

/-! ## The end -/

/-- Once the dispatcher has seen the end, no message waits and none will come. -/
structure Exhausted (s : Session) : Prop where
  inbound : s.flow = .noticed → s.inbound = []
  deaf : s.flow ≠ .running → s.reader.stopped = true

theorem exhausted_launch (language : String) (limit : Nat) (process : Option Nat) (clock : Nat) :
    (launch language limit process clock).Exhausted := by
  refine ⟨fun noticed => ?_, fun ended => absurd rfl ended⟩
  cases noticed

theorem feed_of_stopped {r : Reader} (stopped : r.stopped = true) (bytes : Bytes) :
    r.feed bytes = (r, ⟨[], none⟩) := by
  simp [Reader.feed, stopped]

theorem Exhausted.deliver (h : s.Exhausted) : s.deliver.1.Exhausted := by
  unfold Session.deliver
  split
  · exact h
  · split
    · rename_i m rest queue
      rw [applied_fst]
      refine ⟨fun noticed => ?_, h.deaf⟩
      rw [h.inbound noticed] at queue
      cases queue
    · rename_i empty
      split
      · rename_i ended
        simp only [Moved.after, applied_fst]
        exact ⟨fun _ => empty, fun _ => h.deaf (by simp [ended])⟩
      · exact h

theorem Exhausted.endOutput (h : s.Exhausted) : s.endOutput.Exhausted := by
  refine ⟨fun noticed => ?_, fun _ => rfl⟩
  simp only [Session.endOutput] at noticed ⊢
  split at noticed
  · cases noticed
  · exact h.inbound noticed

theorem Exhausted.serverWrites (h : s.Exhausted) (bytes : Bytes) :
    (s.serverWrites bytes).1.Exhausted := by
  by_cases running : s.flow = .running
  · -- What is read now can only end the output.
    have now : ∀ (reader : Reader) (inbound : List Message),
        ({ s with reader := reader, inbound := inbound } : Session).Exhausted := by
      intro reader inbound
      refine ⟨fun noticed => ?_, fun ended => absurd running ended⟩
      rw [running] at noticed
      cases noticed
    simp only [Session.serverWrites]
    split
    · exact now _ _
    · exact (now _ _).endOutput
  · have nothing := feed_of_stopped (h.deaf running) bytes
    have used : s.usable ⟨[], none⟩ = ⟨[], none⟩ := by simp [usable]
    simp only [Session.serverWrites, nothing, used, List.filterMap_nil, List.append_nil,
      Nat.lt_irrefl, if_false]
    exact ⟨h.inbound, h.deaf⟩

theorem Exhausted.of_same (h : s.Exhausted) (reader : s'.reader = s.reader)
    (flow : s'.flow = s.flow) (inbound : s'.inbound = s.inbound) : s'.Exhausted := by
  refine ⟨?_, ?_⟩
  · rw [flow, inbound]
    exact h.inbound
  · rw [flow, reader]
    exact h.deaf

theorem Exhausted.undergo (h : s.Exhausted) (d : Deed) : (s.undergo d).1.Exhausted := by
  cases d with
  | act a =>
    cases a with
    | resume n =>
      obtain ⟨_, _, _, _, _, frame⟩ := (byCall_resume s n).frame
      simp only [Session.undergo, step, frame]
      exact h.of_same rfl rfl rfl
    | serve =>
      have same : s.serve.1.reader = s.reader ∧ s.serve.1.flow = s.flow ∧
          s.serve.1.inbound = s.inbound := by
        unfold serve
        split
        · simp
        · split
          · split
            · simp
            · simp [applied_fst]
          · dsimp only
            split
            · unfold perform
              split <;> simp [applied_fst, answer, updateCall]
            · simp [applied_fst]
            · simp [applied_fst]
      exact h.of_same same.1 same.2.1 same.2.2
    | deliver => exact h.deliver
    | write =>
      simp only [Session.undergo, step, write]
      split
      · exact h
      · split <;> exact h.of_same rfl rfl rfl
    | serverWrites bytes => exact h.serverWrites bytes
    | serverCloses => exact h.endOutput
    | serverComplains bytes =>
      simp only [Session.undergo, step, serverComplains]
      split
      · exact h
      · exact h.of_same rfl rfl rfl
    | processExits =>
      simp only [Session.undergo, step, processExits]
      split
      · exact h.of_same rfl rfl rfl
      · exact h
    | serverEndsComplaints | serverStopsReading | advance => exact h.of_same rfl rfl rfl
  | begin | abandon | release => exact h.of_same rfl rfl rfl

theorem Exhausted.through (h : s.Exhausted) (deeds : List Deed) : (s.through deeds).Exhausted := by
  induction deeds generalizing s with
  | nil => exact h
  | cons d deeds ih => exact ih (h.undergo d)

/-! ## Runs -/

theorem heard_append_eq (xs ys : List Deed) :
    heard (xs ++ ys) = if .act .serverCloses ∈ xs then heard xs else heard xs ++ heard ys := by
  by_cases ends : .act .serverCloses ∈ xs
  · obtain ⟨before, rest, rfl, notEnd⟩ := List.eq_append_cons_of_mem ends
    rw [if_pos ends, List.append_assoc, List.cons_append, heard_append notEnd,
      heard_append notEnd]
  · rw [if_neg ends, heard_eq ends, heard,
      List.takeWhile_append_of_pos (ne_end_of_not_mem ends), List.flatMap_append, ← heard]

/-- What is silent is not heard. -/
theorem heard_of_silent {xs : List Deed} (silent : ∀ d ∈ xs, d.isSilent = true)
    (ys : List Deed) : heard (xs ++ ys) = heard ys := by
  have notEnd : .act .serverCloses ∉ xs := by
    intro ends
    have heard := silent _ ends
    simp [Deed.isSilent, Action.isOutput] at heard
  have nothing : xs.flatMap Deed.written = [] := by
    apply List.flatMap_eq_nil_iff.mpr
    exact fun d member => (d.written_of_isSilent (silent d member) (launch "" 0 none 0)).1
  rw [heard_append_eq, if_neg notEnd, heard_eq notEnd, nothing, List.nil_append]

theorem heard_congr (xs : List Deed) {ys zs : List Deed} (same : heard ys = heard zs) :
    heard (xs ++ ys) = heard (xs ++ zs) := by
  rw [heard_append_eq, heard_append_eq, same]

/-- The messages of the output so far are the first ones of the whole output. -/
theorem messagesIn_heard_append (deeds more : List Deed) :
    messagesIn (heard deeds) <+: messagesIn (heard (deeds ++ more)) := by
  rw [heard_append_eq]
  split
  · exact List.prefix_rfl
  · exact messagesIn_prefix _ _

/-- While a session is held, the messages that its dispatcher has taken in are the first ones
of all that the server's output holds up to its end or the first fault; they are all that came
so far when none waits, and all that will ever come when the dispatcher has seen the end. -/
theorem dispatched_launch (language : String) (limit : Nat) (process : Option Nat) (clock : Nat)
    (deeds more : List Deed)
    (held : ((launch language limit process clock).through deeds).released = false) :
    let s := launch language limit process clock
    s.dispatched deeds <+: messagesIn (heard (deeds ++ more)) ∧
      ((s.through deeds).inbound = [] → s.dispatched deeds = messagesIn (heard deeds)) ∧
      ((s.through deeds).flow = .noticed →
        s.dispatched deeds = messagesIn (heard (deeds ++ more))) := by
  intro s
  have running : (s.through deeds).stopped = false := by
    by_contra stopped
    have released := ((lively_launch language limit process clock).through deeds).stopped
      (Bool.of_not_eq_false stopped)
    rw [held] at released
    cases released
  obtain ⟨forwards, -, goesOn⟩ := (forwarded_launch language limit process clock deeds).2 running
  have queue : s.dispatched deeds ++ (s.through deeds).inbound = messagesIn (heard deeds) := by
    rw [dispatched_append_inbound, ← forwards]
    rfl
  have all : (s.through deeds).inbound = [] → s.dispatched deeds = messagesIn (heard deeds) := by
    intro empty
    rw [empty, List.append_nil] at queue
    exact queue
  refine ⟨?_, all, fun noticed => ?_⟩
  · have begins : s.dispatched deeds <+: messagesIn (heard deeds) := ⟨_, queue⟩
    exact begins.trans (messagesIn_heard_append deeds more)
  · have exhausted := (exhausted_launch language limit process clock).through deeds
    rw [all (exhausted.inbound noticed), heard_append_eq]
    split
    · rfl
    · rename_i notEnd
      -- The reader has stopped at a fault, behind which nothing is read.
      have fault : (outcomes (heard deeds)).2 ≠ none := by
        intro none
        have still := goesOn.mpr ⟨none, notEnd⟩
        rw [noticed] at still
        cases still
      rcases outcomes_append (heard deeds) (heard more) with ⟨none, -⟩ | ⟨-, same⟩
      · exact absurd none fault
      · rw [messagesIn, messagesIn, same]

end LanguageClient.Session
