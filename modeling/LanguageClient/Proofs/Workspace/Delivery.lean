import LanguageClient.Proofs.Workspace.Cooperation
import LanguageClient.Proofs.Workspace.Courier

/-!
# What a server that does its part is told

A lane whose server does its part opens the documents of all that is queued in it, before
the server is asked to prepare for its end (`Faithful`), and it is not released before
the server has been told to exit.
-/

set_option autoImplicit false

namespace LanguageClient

namespace Session

variable {s : Session} {n : Nat} {goal : Goal} {phase : Phase} {sent base : List Message}

theorem Idle.ordered (h : s.Idle phase sent) : s.Ordered := by
  intro m c hc leaving
  have result := h.calls m c hc
  rw [Call.result?_eq] at result
  cases at_ : c.stage <;> simp_all [Stage.isLeaving, Stage.result?]

theorem Engaged.ordered (h : s.Engaged n goal phase base) : s.Ordered := by
  intro m c hc leaving
  by_cases own : m = n
  · subst own
    obtain ⟨d, hd, -, course⟩ := h.call
    obtain rfl : c = d := Option.some.inj (hc.symm.trans hd)
    exact (course.ordered_exit leaving).2
  · have result := h.others m c own hc
    rw [Call.result?_eq] at result
    cases at_ : c.stage <;> simp_all [Stage.isLeaving, Stage.result?]

/-- The end of a session has no result while the dispatcher is open. -/
theorem Course.unfinished {grace : Nat} {stage : Stage} {v : View}
    (h : Course n (.shutdown grace) phase base stage v) : stage.result? = none := by
  cases h with
  | finished opens plain =>
    cases phase <;> simp only [Goal.opening, Opening.ask.injEq, reduceCtorEq] at opens
    subst opens
    cases plain
  | greeted handshake | refused handshake => cases handshake
  | ready | asking | answered | waiting | leaving | ordered | exiting | killed => rfl

/-- While the server does its part the dispatcher does not close before the order to exit. -/
theorem Unbroken.live {a : Action} (h : s.Unbroken) (coop : s.Cooperative) (ordered : s.Ordered)
    (after : (s.step a).1.Cooperative) (stays : .leave ∉ s.sent) :
    (s.step a).1.dispatcher.closed = false := by
  cases closed : (s.step a).1.dispatcher.closed with
  | false => rfl
  | true =>
    have quiet := (quiet_step s a).sent closed
    have unbroken := h.step coop ordered after (quiet ▸ stays)
    rw [unbroken.opened] at closed
    cases closed

end Session

namespace Lane

variable {l l' : Lane} {items : List Activation} {ds : List Document} {courier : Courier}

theorem Stands.ordered (h : l.Stands courier ds) : l.session.Ordered := by
  cases h with
  | starting idle | idle _ idle | ended _ _ idle => exact idle.ordered
  | subscribing engaged | greeting engaged => exact engaged.ordered
  | announcing _ engaged | opening _ engaged => exact engaged.ordered
  | closing _ _ engaged | leaving _ _ engaged => exact engaged.ordered

/-- A handshake without a result is the one that the courier waits for. -/
theorem Stands.handshake (h : l.Stands courier ds) {n : Nat} {c : Call} {params : InitializeParams}
    (hc : l.session.call? n = some c) (greets : c.goal = .handshake params)
    (none : c.result? = none) : l.session.Engaged n (.handshake params) .launched [] := by
  have idle : ∀ {phase sent}, l.session.Idle phase sent → False := by
    intro phase sent idle
    have result := idle.calls n c hc
    rw [none] at result
    cases result
  have engaged : ∀ {m goal phase base}, l.session.Engaged m goal phase base →
      m = n ∧ goal = .handshake params := by
    intro m goal phase base engaged
    by_cases own : n = m
    · subst own
      obtain ⟨d, hd, is, -⟩ := engaged.call
      obtain rfl : c = d := Option.some.inj (hc.symm.trans hd)
      exact ⟨rfl, is.symm.trans greets⟩
    · have result := engaged.others n c own hc
      rw [none] at result
      cases result
  -- At most one call is under way, and only the greeting is a handshake.
  cases h with
  | starting rests | idle _ rests | ended _ _ rests => exact (idle rests).elim
  | subscribing on | announcing _ on | closing _ _ on | opening _ on | leaving _ _ on =>
    cases (engaged on).2
  | greeting on =>
    obtain ⟨rfl, same⟩ := engaged on
    exact same ▸ on

/-! ## Steps -/

/-- What holds of a lane whose server has done its part so far. -/
structure Faithful (l : Lane) (items : List Activation) : Prop where
  holds : l.Holds items
  unbroken : .leave ∉ l.session.sent → l.session.Unbroken
  accepted : ¬ l.session.Rejected

theorem faithful_start (language : String) (limit : Nat) (process : Option Nat) (clock : Nat)
    (greeting : InitializeParams) (folder : Path) :
    (start (.launch language limit process clock) greeting folder).Faithful [] := by
  refine ⟨holds_start language limit process clock greeting folder, fun _ => ?_, ?_⟩
  · exact Session.unbroken_launch language limit process clock
  · rintro ⟨n, c, params, e, hc, -⟩
    cases hc

theorem leave_not_mem_script (greeting : InitializeParams) (ds : List Document) :
    .leave ∉ Message.script greeting ds := by
  have switches : ∀ before, .leave ∉ Message.switches before ds := by
    induction ds with
    | nil => simp [Message.switches]
    | cons d ds ih =>
      intro before
      rw [Message.switches, List.mem_append, List.mem_cons, not_or, not_or]
      refine ⟨?_, ?_, ih _⟩
      · cases before <;> simp [Message.closing, Message.closed, Message.leave]
      · simp [Message.opened, Message.leave]
  rw [Message.script, List.mem_cons, List.mem_cons, not_or, not_or]
  exact ⟨by simp [Message.hello, Message.leave], by simp [Message.announced, Message.leave],
    switches _⟩

/-- A server that has been told to exit has completed the handshake, unless that failed. -/
theorem Scripted.greeted (h : l.Scripted items) (told : .leave ∈ l.session.sent)
    (accepted : ¬ l.session.Rejected) : l.session.Greeted := by
  cases h with
  | refused rejected => exact absurd rejected accepted
  | early sent =>
    have said := sent.subset told
    simp [Message.hello, Message.leave] at said
  | under greeted | beyond greeted => exact greeted

theorem Holds.ordered (h : l.Holds items) (unbroken : l.session.Unbroken) :
    l.session.Ordered := by
  obtain ⟨ds, orderly⟩ := h.orderly unbroken.opened
  exact orderly.stands.ordered

theorem Faithful.accepted_session (h : l.Faithful items) {a : Session.Action}
    (stays : .leave ∉ l.session.sent) (coop : l.session.Cooperative)
    (after : (l.session.step a).1.Cooperative) : ¬ (l.session.step a).1.Rejected := by
  have unbroken := h.unbroken stays
  obtain ⟨ds, orderly⟩ := h.holds.orderly unbroken.opened
  have live := unbroken.live coop orderly.stands.ordered after stays
  rintro ⟨n, c', params, e, hc', greets, result⟩
  have later := Session.later_step l.session a
  have goal := later.goal n
  rw [hc', Option.map_some, greets] at goal
  obtain ⟨c, hc, same⟩ := Option.map_eq_some_iff.mp goal.symm
  cases old : c.result? with
  | some r =>
    -- A call keeps its result, so it had failed before.
    have kept := later.result n c hc (by rw [old]; rfl)
    obtain rfl : c = c' := Option.some.inj (kept.symm.trans hc')
    exact h.accepted ⟨n, c, params, e, hc, same, result⟩
  | none =>
    have engaged := orderly.stands.handshake hc same old
    have no : ∀ e, l.session.result? n ≠ some (.error e) := by
      intro e
      rw [Session.result?, hc, Option.bind_some, old]
      simp
    refine engaged.accepted coop unbroken live no e ?_
    rw [Session.result?, hc', Option.bind_some, result]

/-- Every step of a lane whose server does its part is faithful. -/
theorem Faithful.step (h : l.Faithful items) (a : Action) (coop : l.session.Cooperative)
    (after : (l.step a).1.session.Cooperative)
    (known : Convertible l.folder ((items ++ l.gained a).map Activation.visit))
    (beyond : a = .release → .leave ∈ l.session.sent) :
    (l.step a).1.Faithful (items ++ l.gained a) := by
  have holds := h.holds.step a known
  by_cases told : .leave ∈ l.session.sent
  · -- What has been said and what has succeeded lasts.
    have follows := h.holds.named.follows a
    have greeted := follows.greeted (h.holds.scripted.greeted told h.accepted)
    refine ⟨holds, fun stays => absurd ?_ stays, holds.named.not_rejected greeted⟩
    have step := stepped l a
    generalize (l.step a).1 = l' at step ⊢
    cases step with
    | session a => exact (Session.sent_step l.session a).subset told
    | released | activated | called | aside => exact told
  · have unbroken := h.unbroken told
    have ordered := h.holds.ordered unbroken
    have step := stepped l a
    generalize (l.step a).1 = l' at step after holds ⊢
    cases step with
    | session a =>
      refine ⟨holds, fun stays => ?_, h.accepted_session told coop after⟩
      exact unbroken.step coop ordered after stays
    | released => exact absurd (beyond rfl) told
    | activated => exact ⟨holds, fun _ => unbroken, h.accepted⟩
    | @called _ goal =>
      have begun : (l.session.begin l.nextCall goal).Unbroken :=
        ⟨unbroken.opened, unbroken.writable, unbroken.running, unbroken.held, unbroken.stays,
          unbroken.waited, unbroken.answered⟩
      refine ⟨holds, fun _ => begun, ?_⟩
      rintro ⟨n, c, params, e, hc, greets, result⟩
      dsimp only at hc
      rw [Session.call?_begin (h.holds.named.fresh _ (Nat.le_refl _))] at hc
      split at hc
      · rw [← Option.some.inj hc] at result
        cases result
      · exact h.accepted ⟨n, c, params, e, hc, greets, result⟩
    | aside => exact ⟨holds, fun _ => unbroken, h.accepted⟩

/-! ## What is sent -/

/-- A server that does its part is not left before it has been told to exit. -/
theorem Faithful.told_of_farewell (h : l.Faithful items)
    (done : l.farewellResult?.isSome = true) : .leave ∈ l.session.sent := by
  by_cases told : .leave ∈ l.session.sent
  · exact told
  exfalso
  obtain ⟨ds, orderly⟩ := h.holds.orderly (h.unbroken told).opened
  cases farewell : l.farewell with
  | none => simp [farewellResult?, farewell] at done
  | some n =>
    have stands := orderly.stands
    -- Nobody calls for the end of the session before the courier is done.
    have ended : l.courier = .ended := by
      by_cases ended : l.courier = .ended
      · exact ended
      · obtain ⟨_, waiting⟩ := orderly.awaiting ended
        have alone := waiting.alone
        rw [farewell] at alone
        cases alone
    rw [ended] at stands
    cases stands with
    | ended _ alone =>
      rw [farewell] at alone
      cases alone
    | leaving _ own engaged =>
      obtain rfl : n = _ := Option.some.inj (farewell.symm.trans own)
      obtain ⟨c, hc, -, course⟩ := engaged.call
      rw [farewellResult?, farewell, Option.bind_some, Session.result?, hc, Option.bind_some,
        Call.result?_eq, course.unfinished] at done
      cases done

/-- A lane whose server does its part has sent the script of some of what was queued, or
the whole script, and then the end may follow. -/
theorem Faithful.sent_cases (h : l.Faithful items) :
    (∃ done ds, done <+: items ∧ l.Opens ds done ∧
        l.session.sent <+: Message.script l.greeting ds) ∨
      l.courier = .ended ∧ l.accepting = false ∧
        ∃ ds, l.Opens ds items ∧
          l.session.sent <+: Message.script l.greeting ds ++ [.bye, .leave] := by
  cases h.holds.scripted with
  | refused rejected => exact absurd rejected h.accepted
  | early sent =>
    refine .inl ⟨[], [], List.nil_prefix, opens_nil l, sent.trans ?_⟩
    exact List.prefix_append [_] [_]
  | under _ within opens sent => exact .inl ⟨_, _, within, opens, sent⟩
  | beyond _ ended shut opens sent => exact .inr ⟨ended, shut, _, opens, sent⟩

/-- A server that has done its part and was told to exit was told all before. -/
theorem Faithful.whole (h : l.Faithful items) (told : .leave ∈ l.session.sent) :
    ∃ ds, l.Opens ds items ∧
      l.session.sent = Message.script l.greeting ds ++ [.bye, .leave] := by
  rcases h.sent_cases with ⟨_, ds, -, -, sent⟩ | ⟨-, -, ds, opens, sent⟩
  · exact absurd (sent.subset told) (leave_not_mem_script l.greeting ds)
  · refine ⟨ds, opens, ?_⟩
    have split : Message.script l.greeting ds ++ [.bye, .leave] =
        (Message.script l.greeting ds ++ [.bye]) ++ [.leave] := by simp
    rw [split] at sent ⊢
    -- The order to exit is the last message, so nothing is missing in front of it.
    rcases List.prefix_concat_iff.mp sent with all | less
    · exact all
    · have said := less.subset told
      rw [List.mem_append, List.mem_singleton] at said
      rcases said with early | same
      · exact absurd early (leave_not_mem_script l.greeting ds)
      · cases same

theorem Opens.within {es : List Document} {plan : List Activation} (h : l.Opens es items)
    (whole : l.Opens ds plan) (within : items <+: plan) : es <+: ds := by
  have first : l.Opens (ds.take items.length) items := by
    unfold Opens at whole ⊢
    rw [List.map_take, whole, ← List.map_take, ← List.prefix_iff_eq_take.mp within]
  rw [h.unique first]
  exact List.take_prefix _ _

/-- Of what is to be queued only a part may be queued, as long as more can come. -/
theorem Faithful.sent_of_plan {plan : List Activation} (h : l.Faithful items)
    (opens : l.Opens ds plan) (within : items <+: plan) (all : l.accepting = false → items = plan) :
    l.session.sent <+: Message.script l.greeting ds ++ [.bye, .leave] := by
  rcases h.sent_cases with ⟨done, es, some, part, sent⟩ | ⟨-, shut, es, whole, sent⟩
  · obtain ⟨fs, rfl⟩ := part.within opens (some.trans within)
    refine (sent.trans ?_).trans (List.prefix_append _ _)
    exact ⟨Message.switches (Message.current none es) fs, by simp [Message.script,
      Message.switches_append]⟩
  · obtain rfl := all shut
    rw [opens.unique whole]
    exact sent

end Lane

end LanguageClient
