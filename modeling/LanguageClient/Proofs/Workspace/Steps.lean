import LanguageClient.Proofs.Workspace.Script

/-!
# What the steps of a lane can do

A step of a lane is a step of its session, begins one call, or leaves the session alone
(`Stepped`).  Calls are numbered, and the handshake is always the second of them (`Named`);
what is known of a session lasts, and a closed dispatcher sends nothing (`Follows`).
-/

set_option autoImplicit false

namespace LanguageClient.Lane

/-! ## Steps -/

/-- What a step can make of a lane. -/
inductive Stepped (l : Lane) : Action → Lane → Prop
  | session (a : Session.Action) : Stepped l (.session a) { l with session := (l.session.step a).1 }
  | released : Stepped l .release { l with session := l.session.release }
  | activated {path : Path} {text : String} {queue : List Activation} {active : Option Path}
      {versions : List (Path × Int)} :
      Stepped l (.activate path text) { l with
        queue := queue
        active := active
        versions := versions }
  | called {a : Action} {goal : Goal} {courier : Courier} {queue : List Activation}
      {farewell : Option Nat}
      (handshake : ∀ params, goal = .handshake params → ∃ n, l.courier = .subscribing n)
      (waits : courier ≠ .starting)
      (first : ∀ n, courier = .subscribing n → l.courier = .starting)
      (ended : l.courier = .ended → courier = .ended)
      (caller : Courier.call? courier = some l.nextCall ∧ farewell = l.farewell ∨
        courier = .ended ∧ l.farewell = none ∧ farewell = some l.nextCall) :
      Stepped l a { l with
        session := l.session.begin l.nextCall goal
        nextCall := l.nextCall + 1
        courier := courier
        queue := queue
        farewell := farewell }
  | aside {a : Action} {courier : Courier} {queue : List Activation} {accepting : Bool}
      (rests : courier = l.courier ∨ l.courier ≠ .ended ∧ (courier = .idle ∨ courier = .ended))
      (shuts : accepting = l.accepting ∨ accepting = false ∧ a = .close) :
      Stepped l a { l with
        courier := courier
        queue := queue
        accepting := accepting }

theorem Stepped.refl (l : Lane) (a : Action) : Stepped l a l := .aside (.inl rfl) (.inl rfl)

section Courier

variable {l : Lane} {a : Action}

theorem stepped_fail (on : l.courier ≠ .ended) (queue : List Activation) (e : ClientError) :
    Stepped l a ({ l with queue := queue }.fail e).1 := by
  unfold fail
  split
  · exact .aside (.inr ⟨on, .inr rfl⟩) (.inl rfl)
  · exact .aside (.inr ⟨on, .inl rfl⟩) (.inl rfl)

theorem stepped_open (on : l.courier ≠ .ended) (queue : List Activation) (item : Activation) :
    Stepped l a ({ l with queue := queue }.open item).1 := by
  unfold Lane.open
  split
  · exact stepped_fail on queue _
  · exact .called (by simp) (by simp) (by simp) (fun ended => absurd ended on) (.inl ⟨rfl, rfl⟩)

theorem stepped_switch (on : l.courier ≠ .ended) (queue : List Activation) (item : Activation) :
    Stepped l a ({ l with queue := queue }.switch item).1 := by
  unfold switch
  split
  · exact stepped_open on queue item
  · split
    · exact stepped_fail on queue _
    · exact .called (by simp) (by simp) (by simp) (fun ended => absurd ended on) (.inl ⟨rfl, rfl⟩)

theorem stepped_takeNext (on : l.courier ≠ .ended) : Stepped l a l.takeNext.1 := by
  unfold takeNext
  split
  · exact stepped_switch on _ _
  · split
    · exact .refl l a
    · exact .aside (.inr ⟨on, .inr rfl⟩) (.inl rfl)

theorem stepped_proceed (on : l.courier ≠ .ended) (result : Except ClientError Json) :
    Stepped l a (l.proceed result).1 := by
  unfold proceed
  split
  · rename_i n _ courier
    exact .called (fun _ _ => ⟨n, courier⟩) (by simp) (by simp) (fun ended => absurd ended on)
      (.inl ⟨rfl, rfl⟩)
  · exact .aside (.inr ⟨on, .inr rfl⟩) (.inl rfl)
  · exact .called (by simp) (by simp) (by simp) (fun ended => absurd ended on) (.inl ⟨rfl, rfl⟩)
  · exact .aside (.inr ⟨on, .inr rfl⟩) (.inl rfl)
  · exact .aside (.inr ⟨on, .inr rfl⟩) (.inl rfl)
  · exact .aside (.inr ⟨on, .inl rfl⟩) (.inl rfl)
  · exact .aside (.inr ⟨on, .inl rfl⟩) (.inl rfl)
  · exact stepped_open on l.queue _
  · exact stepped_fail on l.queue _
  · exact stepped_fail on l.queue _
  · exact .refl l a
  · exact .refl l a
  · exact .refl l a

theorem stepped_consume (l : Lane) : Stepped l a l.consume.1 := by
  unfold consume
  split
  · rename_i courier
    refine .called (by simp) (by simp) (fun _ _ => courier) ?_ (.inl ⟨rfl, rfl⟩)
    intro ended
    rw [courier] at ended
    cases ended
  · rename_i courier
    exact stepped_takeNext (by simp [courier])
  · exact .refl l a
  · rename_i on
    split
    · exact stepped_proceed on _
    · exact .refl l a

end Courier

/-- What a step makes of a lane is one of these. -/
theorem stepped (l : Lane) (a : Action) : Stepped l a (l.step a).1 := by
  cases a with
  | session a => exact .session a
  | activate path text =>
    simp only [step, activate]
    split
    · exact .activated
    · split <;> exact .activated
  | consume => exact stepped_consume l
  | close => exact .aside (.inl rfl) (.inr ⟨rfl, rfl⟩)
  | bidFarewell grace =>
    simp only [step, bidFarewell]
    split
    · rename_i ended
      refine .called (by simp) ?_ ?_ id (.inr ⟨ended.1, ended.2, rfl⟩) <;> simp [ended.1]
    · exact .refl l _
  | release => exact .released

/-- Only closing the queue closes it. -/
theorem accepting_step (l : Lane) {a : Action} (open_ : a ≠ .close) :
    (l.step a).1.accepting = l.accepting := by
  have step := stepped l a
  generalize (l.step a).1 = l' at step ⊢
  cases step with
  | session | released | activated | called => rfl
  | aside _ shuts =>
    rcases shuts with same | ⟨-, close⟩
    · exact same
    · exact absurd close open_

theorem language_step (l : Lane) (a : Action) :
    (l.step a).1.session.language = l.session.language := by
  have step := stepped l a
  generalize (l.step a).1 = l' at step ⊢
  cases step with
  | session a => exact (Session.later_step l.session a).language
  | released | activated | called | aside => rfl

/-! ## Names -/

/-- Whether calls have their numbers: no call has a number to come, and the handshake has
the second one. -/
structure Named (l : Lane) : Prop where
  fresh : ∀ m, l.nextCall ≤ m → l.session.call? m = none
  starting : l.courier = .starting → l.nextCall = 0
  subscribing : ∀ n, l.courier = .subscribing n → l.nextCall = 1
  handshake : ∀ n c params, l.session.call? n = some c → c.goal = .handshake params → n = 1

variable {l l' : Lane}

theorem named_start (s : Session) (greeting : InitializeParams) (folder : Path)
    (none : s.calls = []) : Named (start s greeting folder) := by
  have nothing : ∀ n, s.call? n = .none := fun n => by rw [Session.call?, none]; rfl
  refine ⟨fun m _ => nothing m, fun _ => rfl, fun n waits => ?_, fun n c params hc => ?_⟩
  · cases waits
  · rw [show (start s greeting folder).session = s from rfl, nothing] at hc
    cases hc

/-- Calls keep their numbers. -/
theorem Named.step (h : l.Named) (a : Action) : (l.step a).1.Named := by
  have step := stepped l a
  generalize (l.step a).1 = l' at step ⊢
  cases step with
  | session a =>
    have goal := (Session.later_step l.session a).goal
    refine ⟨fun m later => ?_, h.starting, h.subscribing, fun n c params hc greets => ?_⟩
    · have none := goal m
      rw [h.fresh m later] at none
      exact Option.map_eq_none_iff.mp none
    · have old := goal n
      rw [hc, Option.map_some, greets] at old
      obtain ⟨d, hd, same⟩ := Option.map_eq_some_iff.mp old.symm
      exact h.handshake n d params hd same
  | released => exact ⟨h.fresh, h.starting, h.subscribing, h.handshake⟩
  | activated => exact ⟨h.fresh, h.starting, h.subscribing, h.handshake⟩
  | @called _ goal courier queue farewell handshake waits first =>
    have new := h.fresh l.nextCall (Nat.le_refl _)
    refine ⟨fun m later => ?_, fun starting => absurd starting waits, fun n subscribing => ?_,
      fun n c params hc greets => ?_⟩
    · have later : l.nextCall + 1 ≤ m := later
      rw [Session.call?_begin new, if_neg (by omega)]
      exact h.fresh m (by omega)
    · have zero := h.starting (first n subscribing)
      simp [zero]
    · -- Only a courier that has subscribed begins the handshake, and it has made one call.
      dsimp only at hc
      rw [Session.call?_begin new] at hc
      split at hc
      · rename_i same
        obtain rfl := Option.some.inj hc
        obtain ⟨k, subscribing⟩ := handshake params greets
        exact same.trans (h.subscribing k subscribing)
      · exact h.handshake n c params hc greets
  | aside rests =>
    refine ⟨h.fresh, fun starting => ?_, fun n subscribing => ?_, h.handshake⟩
    · rcases rests with same | ⟨-, idle | ended⟩
      · exact h.starting (same.symm.trans starting)
      · cases idle.symm.trans starting
      · cases ended.symm.trans starting
    · rcases rests with same | ⟨-, idle | ended⟩
      · exact h.subscribing n (same.symm.trans subscribing)
      · cases idle.symm.trans subscribing
      · cases ended.symm.trans subscribing

/-! ## What lasts -/

/-- Whether a lane may come later than another: calls with a result and what has ended last,
a queue that is closed stays so, and a closed dispatcher stays so and sends nothing. -/
structure Follows (l l' : Lane) : Prop where
  folder : l'.folder = l.folder
  greeting : l'.greeting = l.greeting
  language : l'.session.language = l.session.language
  calls : ∀ n c, l.session.call? n = some c → c.result?.isSome = true →
    l'.session.call? n = some c
  settled : l.session.settled <+: l'.session.settled
  shut : l.accepting = false → l'.accepting = false
  ended : l.courier = .ended → l'.courier = .ended
  quiet : Session.Quiet l.session l'.session

theorem Follows.of_session_eq (folder : l'.folder = l.folder) (greeting : l'.greeting = l.greeting)
    (session : l'.session = l.session) (shut : l.accepting = false → l'.accepting = false)
    (ended : l.courier = .ended → l'.courier = .ended) : Follows l l' := by
  have settled : l.session.settled <+: l'.session.settled := by simp [session]
  have quiet : Session.Quiet l.session l'.session :=
    ⟨fun _ => congrArg Session.sent session, fun closed => by rw [session, closed]⟩
  refine ⟨folder, greeting, congrArg Session.language session, fun n c hc _ => ?_, settled, shut,
    ended, quiet⟩
  rw [session]
  exact hc

/-- The beginning of a call comes later. -/
theorem Named.follows_begin {goal : Goal} (h : l.Named) (folder : l'.folder = l.folder)
    (greeting : l'.greeting = l.greeting)
    (session : l'.session = l.session.begin l.nextCall goal)
    (shut : l.accepting = false → l'.accepting = false)
    (ended : l.courier = .ended → l'.courier = .ended) : Follows l l' := by
  refine ⟨folder, greeting, ?_, fun n c hc _ => ?_, ?_, shut, ended, fun _ => ?_,
    fun closed => ?_⟩ <;> rw [session]
  · rfl
  · have new := h.fresh l.nextCall (Nat.le_refl _)
    rw [Session.call?_begin new, if_neg, hc]
    rintro rfl
    rw [new] at hc
    cases hc
  · exact List.prefix_rfl
  · rfl
  · exact closed

/-- Every step of a lane comes later. -/
theorem Named.follows (h : l.Named) (a : Action) : Follows l (l.step a).1 := by
  have step := stepped l a
  generalize (l.step a).1 = l' at step ⊢
  cases step with
  | session a =>
    have later := Session.later_step l.session a
    exact ⟨rfl, rfl, later.language, later.result, later.settled, id, id,
      Session.quiet_step l.session a⟩
  | released =>
    exact ⟨rfl, rfl, rfl, fun _ _ hc _ => hc, List.prefix_rfl, id, id, fun _ => rfl, id⟩
  | activated => exact .of_session_eq rfl rfl rfl id id
  | called _ _ _ ended => exact h.follows_begin rfl rfl rfl id ended
  | aside rests shuts =>
    refine .of_session_eq rfl rfl rfl (fun shut => ?_) fun ended => ?_
    · rcases shuts with same | ⟨now, -⟩
      · exact same.trans shut
      · exact now
    · rcases rests with same | ⟨on, -⟩
      · exact same.trans ended
      · exact absurd ended on

theorem Follows.results (h : Follows l l') {n : Nat} {r : Except ClientError Json}
    (done : l.session.result? n = some r) : l'.session.result? n = some r := by
  obtain ⟨c, hc, result⟩ := Option.bind_eq_some_iff.mp done
  have held := h.calls n c hc (by rw [result]; rfl)
  exact Option.bind_eq_some_iff.mpr ⟨c, held, result⟩

/-- Once the handshake has succeeded it has succeeded for good. -/
theorem Follows.greeted (h : Follows l l') (greeted : l.session.Greeted) :
    l'.session.Greeted := by
  obtain ⟨⟨v, r, ended, read⟩, w, result⟩ := greeted
  exact ⟨⟨v, r, h.settled.subset ended, read⟩, w, h.results result⟩

/-- The beginning of a call does not undo the handshake. -/
theorem Named.greeted_begin (h : l.Named) (goal : Goal) (greeted : l.session.Greeted) :
    (l.session.begin l.nextCall goal).Greeted := by
  have follows : Follows l { l with session := l.session.begin l.nextCall goal } :=
    h.follows_begin rfl rfl rfl id id
  exact follows.greeted greeted

theorem Follows.rejected (h : Follows l l') (rejected : l.session.Rejected) :
    l'.session.Rejected := by
  obtain ⟨n, c, params, e, hc, goal, result⟩ := rejected
  exact ⟨n, c, params, e, h.calls n c hc (by rw [result]; rfl), goal, result⟩

theorem Named.not_rejected (h : l.Named) (greeted : l.session.Greeted) :
    ¬ l.session.Rejected := by
  rintro ⟨n, c, params, e, hc, goal, result⟩
  obtain ⟨-, v, success⟩ := greeted
  obtain rfl := h.handshake n c params hc goal
  rw [Session.result?, hc, Option.bind_some, result] at success
  cases success

end LanguageClient.Lane
