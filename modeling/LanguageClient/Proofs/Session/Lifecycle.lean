import LanguageClient.Proofs.Session.Phases
import LanguageClient.Proofs.Session.Refusals

/-!
# The life of a session

In every run from the launch a session passes through its phases in order, knows what the
server can do from the handshake on, and is over when it has exited.  A session with a
process exits only after the process has; one without exits when the output of the server
has been read to its end.  Shutting a session down returns when it has exited.
-/

set_option autoImplicit false

namespace LanguageClient.Session

variable {s : Session} {n : Nat} {c : Call} {deeds : List Deed} {grace : Nat}
  {r : Except ClientError Json}

/-! ## Shutting down -/

/-- A result that is new comes from a call that goes on. -/
theorem result_cases (h : s.Accounted) {d : Deed} (done : (s.undergo d).1.result? n = some r) :
    s.result? n = some r ∨ d = .act (.resume n) := by
  by_cases goesOn : ∃ m, d = .act (.resume m)
  · obtain ⟨m, rfl⟩ := goesOn
    by_cases own : n = m
    · exact .inr (by rw [own])
    · obtain ⟨f, -, calls⟩ := (byCall_resume s m).calls
      have kept : (s.undergo (.act (.resume m))).1.call? n = s.call? n :=
        (calls n).trans (if_neg own)
      rw [result?, kept] at done
      exact .inl done
  · have other : ∀ m, d ≠ .act (.resume m) := fun m is => goesOn ⟨m, is⟩
    rw [result?_undergo h other] at done
    exact .inl done

/-- Shutting a session down returns when the session has exited, and without an error. -/
theorem farewell_resume (hc : s.call? n = some c) (goal : c.goal = .shutdown grace)
    (done : (s.resume n).1.result? n = some r) :
    s.result? n = some r ∨ r = .ok .null ∧ s.phase = .exited := by
  rcases turned_resume hc with ⟨rests, -⟩ | ⟨stage, given, turn, turned⟩
  · rw [rests] at done
    exact .inl done
  · right
    rw [result?_of_call? turned.call] at done
    cases turn with
    | declines _ opens =>
      obtain rfl := Option.some.inj done
      rw [goal] at opens
      cases now : s.phase with
      | exited =>
        rw [now] at opens
        exact ⟨(Opening.finish.inj opens).symm, rfl⟩
      | launched | initialized | shuttingDown =>
        rw [now] at opens
        cases opens
    | asks | exits | awaits | leaves => cases done
    | ends _ _ stays => exact absurd goal (stays grace)
    | goesOn _ on =>
      rcases on with leaving | ⟨rfl, exited⟩
      · rw [Stage.result?_of_isLeaving leaving] at done
        cases done
      · exact ⟨(Option.some.inj done).symm, exited⟩

theorem farewell_undergo (h : s.Accounted) {d : Deed} {c' : Call}
    (found : (s.undergo d).1.call? n = some c') (goal : c'.goal = .shutdown grace)
    (done : c'.result? = some r) :
    (∃ c, s.call? n = some c ∧ c.goal = .shutdown grace ∧ c.result? = some r) ∨
      r = .ok .null ∧ s.phase = .exited := by
  have result : (s.undergo d).1.result? n = some r := by
    rw [result?, found]
    exact done
  rcases call?_of_undergo h found with ⟨c, hc, evolves⟩ | ⟨-, other, -, rfl⟩
  · have same : c.goal = .shutdown grace := evolves.goal.symm.trans goal
    have before : s.result? n = some r → c.result? = some r := by
      intro was
      rw [result?, hc] at was
      exact was
    rcases result_cases h result with was | rfl
    · exact .inl ⟨c, hc, same, before was⟩
    · exact (farewell_resume hc same result).imp (fun was => ⟨c, hc, same, before was⟩) id
  · cases done

/-! ## Runs -/

/-- What holds of the phase of a session after some deeds. -/
structure Orderly (s : Session) (deeds : List Deed) : Prop where
  known : s.phase = .initialized ∨ s.phase = .shuttingDown → s.capabilities.isSome = true
  afterExit : s.phase = .exited → s.Over
  watched : s.process.isSome = true → .close ∈ s.commands ∨ s.phase = .exited →
    .act .processExits ∈ deeds
  noticed : s.process = none → s.flow = .noticed → s.phase = .exited
  farewells : ∀ n c grace r, s.call? n = some c → c.goal = .shutdown grace →
    c.result? = some r → r = .ok .null ∧ s.phase = .exited

theorem orderly_launch (language : String) (limit : Nat) (process : Option Nat) (clock : Nat) :
    (launch language limit process clock).Orderly [] := by
  refine ⟨?_, ?_, ?_, ?_, ?_⟩
  · rintro (now | now) <;> cases now
  · intro now
    cases now
  · rintro - (queued | now)
    · cases queued
    · cases now
  · rintro - noticed
    cases noticed
  · intro n c grace r found
    cases found

theorem exited_undergo (h : s.phase = .exited) (d : Deed) : (s.undergo d).1.phase = .exited := by
  have passes := (phased_undergo s d).passes
  rw [h] at passes
  generalize (s.undergo d).1.phase = p at passes
  cases passes <;> rfl

theorem exited_through (h : s.phase = .exited) (deeds : List Deed) :
    (s.through deeds).phase = .exited := by
  induction deeds generalizing s with
  | nil => exact h
  | cons d deeds ih => exact ih (exited_undergo h d)

/-- A session that exits is over, and what is over stays so. -/
theorem over_undergo (afterExit : s.phase = .exited → s.Over) (d : Deed)
    (now : (s.undergo d).1.phase = .exited) : (s.undergo d).1.Over := by
  cases phased_undergo s d with
  | stays phase => exact ((afterExit (phase ▸ now)).undergo d).1
  | initializes _ now' | shutsDown _ now' => cases now.symm.trans now'
  | exits _ closed pending => exact ⟨closed, pending⟩

/-- What ends a session with a process is the order that the process watcher has given. -/
theorem watched_undergo (owned : s.process.isSome = true)
    (watched : .close ∈ s.commands ∨ s.phase = .exited → .act .processExits ∈ deeds) {d : Deed}
    (ends : .close ∈ (s.undergo d).1.commands ∨ (s.undergo d).1.phase = .exited) :
    .act .processExits ∈ deeds ++ [d] := by
  rw [List.mem_append, List.mem_singleton]
  rcases ends with queued | now
  · rcases close_mem_undergo queued with before | watcher | unowned
    · exact .inl (watched (.inl before))
    · exact .inr watcher.symm
    · rw [unowned] at owned
      cases owned
  · cases phased_undergo s d with
    | stays phase => exact .inl (watched (.inr (phase ▸ now)))
    | initializes _ now' | shutsDown _ now' => cases now.symm.trans now'
    | exits _ _ _ cause =>
      rcases cause with before | ⟨unowned, -⟩
      · exact .inl (watched (.inl before))
      · rw [unowned] at owned
        cases owned

/-- Whatever happens to a session in order leaves it so. -/
theorem Orderly.undergo (h : s.Orderly deeds) (accounted : s.Accounted) (d : Deed) :
    (s.undergo d).1.Orderly (deeds ++ [d]) := by
  have process := process_undergo s d
  refine ⟨?_, over_undergo h.afterExit d, ?_, ?_, ?_⟩
  · intro now
    cases phased_undergo s d with
    | stays phase known => exact known (h.known (phase ▸ now))
    | initializes _ _ known => exact known
    | shutsDown was _ known =>
      rw [known]
      exact h.known (.inl was)
    | exits now' => rcases now with now | now <;> cases now'.symm.trans now
  · intro owned
    rw [process] at owned
    exact watched_undergo owned (h.watched owned)
  · intro unowned noticed
    rw [process] at unowned
    rcases noticed_undergo noticed with before | owned | now
    · exact exited_undergo (h.noticed unowned before) d
    · rw [unowned] at owned
      cases owned
    · exact now
  · intro n c grace r found goal done
    rcases farewell_undergo accounted found goal done with ⟨c₀, hc₀, goal₀, done₀⟩ | ⟨ok, exited⟩
    · obtain ⟨ok, exited⟩ := h.farewells n c₀ grace r hc₀ goal₀ done₀
      exact ⟨ok, exited_undergo exited d⟩
    · exact ⟨ok, exited_undergo exited d⟩

theorem orderly_through (language : String) (limit : Nat) (process : Option Nat) (clock : Nat)
    (deeds : List Deed) :
    ((launch language limit process clock).through deeds).Orderly deeds := by
  induction deeds using List.reverseRecOn with
  | nil => exact orderly_launch language limit process clock
  | append_singleton deeds d ih =>
    rw [through_snoc]
    exact ih.undergo ((lively_launch language limit process clock).through deeds).accounted d

theorem process_through (s : Session) (deeds : List Deed) :
    (s.through deeds).process = s.process := by
  induction deeds generalizing s with
  | nil => rfl
  | cons d deeds ih => exact (ih _).trans (process_undergo s d)

/-- A dispatcher that has not ended notices the end of the output as soon as it has taken
all messages, and without a process that is the end of the session. -/
theorem exits_of_exhausted (running : s.stopped = false) (nothing : s.inbound = [])
    (ended : s.flow = .ended) (unowned : s.process = none) :
    (s.undergo (.act .deliver)).1.phase = .exited := by
  simp [undergo, step, deliver, running, nothing, ended, unowned, Moved.after, applied_fst]

/-- In every run from the launch, whatever callers, the server and the process watcher do:
the phase changes in order and the end is final; from the handshake on the capabilities
are stored; a session that has exited has a closed dispatcher and no request left, sends
nothing more, and refuses requests and notifications.  With a process it exits only after
the process has, and without one when the dispatcher has found the output exhausted.  A
call that shuts the session down and returns returns no error, and the session has exited
by then. -/
theorem life_in_order (language : String) (limit : Nat) (process : Option Nat) (clock : Nat)
    (deeds : List Deed) (s : Session)
    (reached : s = (launch language limit process clock).through deeds) :
    (∀ d, Phase.Passes s.phase (s.undergo d).1.phase) ∧
    (s.phase = .initialized ∨ s.phase = .shuttingDown → s.capabilities.isSome = true) ∧
    (s.phase = .exited → s.Over ∧ ∀ more,
      ((s.through more).phase = .exited ∧ (s.through more).sent = s.sent) ∧
      ∀ n goal what, s.call? n = none → goal.message? = some what →
        (∀ r, ((s.begin n goal).through more).result? n = some r →
          r = .error .sessionTerminated) ∧
        ((s.begin n goal).Attended n more →
          ((s.begin n goal).through more).result? n = some (.error .sessionTerminated))) ∧
    (process.isSome = true → s.phase = .exited → .act .processExits ∈ deeds) ∧
    (process = none → (s.flow = .noticed → s.phase = .exited) ∧
      (s.stopped = false → s.inbound = [] → s.flow = .ended →
        (s.undergo (.act .deliver)).1.phase = .exited)) ∧
    (∀ n c grace r, s.call? n = some c → c.goal = .shutdown grace → c.result? = some r →
      r = .ok .null ∧ s.phase = .exited) := by
  subst reached
  have orderly := orderly_through language limit process clock deeds
  have lively := (lively_launch language limit process clock).through deeds
  have owner : ((launch language limit process clock).through deeds).process = process :=
    process_through _ deeds
  generalize (launch language limit process clock).through deeds = s at orderly lively owner
  subst owner
  refine ⟨fun d => (phased_undergo s d).passes, orderly.known, fun exited => ?_,
    fun owned exited => orderly.watched owned (.inr exited), fun unowned => ?_, orderly.farewells⟩
  · have gone := orderly.afterExit exited
    refine ⟨gone, fun more => ⟨⟨exited_through exited more, (gone.through more).2⟩, ?_⟩⟩
    intro n goal what new sends
    exact refused_of_closed lively gone.closed new sends more
  · refine ⟨orderly.noticed unowned, fun running nothing ended => ?_⟩
    exact exits_of_exhausted running nothing ended unowned

/-- A session without a process is shut down before its handshake; the server ends its
output, and the call returns. -/
def shuttingDown : List Deed :=
  [.begin 0 (.shutdown 100), .act (.resume 0), .act .serve, .act (.resume 0),
    .act .serverCloses, .act .deliver, .act (.resume 0)]

/-- A call gets its turns, and its time passes. -/
def turnsOfOne : List Deed :=
  [.act (.resume 1), .act .serve, .act (.resume 1), .act (.advance 1000), .act (.resume 1)]

theorem life_in_order_late_request :
    let s := (launch "rust" 1000 none 0).through shuttingDown
    s.call? 0 = some ⟨.shutdown 100, .finished (.ok .null), none⟩ ∧ s.phase = .exited ∧
      s.dispatcher.pending = [] ∧
      ((s.begin 1 (.request "late" .null)).through turnsOfOne).result? 1 =
        some (.error .sessionTerminated) := by
  intro s
  have ended : s.call? 0 = some ⟨.shutdown 100, .finished (.ok .null), none⟩ := by decide +kernel
  obtain ⟨-, -, afterExit, -, -, farewells⟩ := life_in_order "rust" 1000 none 0 shuttingDown s rfl
  obtain ⟨-, exited⟩ := farewells 0 _ 100 _ ended rfl rfl
  obtain ⟨closed, more⟩ := afterExit exited
  refine ⟨ended, exited, closed.pending, ?_⟩
  apply ((more turnsOfOne).2 1 (.request "late" .null) (.request "late" .null)
    (by decide +kernel) rfl).2
  refine ⟨⟨[], [.act .serve], [.act (.advance 1000)], [], rfl, ?_, ?_⟩, ?_, ?_⟩
  · decide +kernel
  · decide +kernel
  · decide +kernel
  · decide +kernel

end LanguageClient.Session
