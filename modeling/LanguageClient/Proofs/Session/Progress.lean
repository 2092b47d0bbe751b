import LanguageClient.Proofs.Session.Ownership

/-!
# No call waits forever

A call only ever gets further (`Evolves`).  Once it has asked, its ask moves up in the
queue with every command that the dispatcher takes, and once it waits its time runs out;
so a call that gets its turns, while the dispatcher works and time passes, comes to its
end (`reach_of_attended`).
-/

set_option autoImplicit false

namespace LanguageClient

/-- How far a call at a stage has come: it has asked nothing, has asked, has its answer,
waits for its request, or is past that. -/
def Stage.reach : Stage → Nat
  | .ready => 0
  | .asking .main => 1
  | .answered .main _ => 2
  | .waiting .. => 3
  | _ => 4

theorem Stage.reach_le (stage : Stage) : stage.reach ≤ 4 := by
  cases stage with
  | asking topic | answered topic => cases topic <;> simp [reach]
  | ready | waiting | exiting | killed | finished | abandoned => simp [reach]

namespace Session

open Dispatcher

variable {s s' : Session} {n m k : Nat} {c : Call}

/-! ## The session -/

/-- What everything that happens to a session respects. -/
structure Onward (s s' : Session) : Prop where
  limit : s'.limit = s.limit
  clock : s.clock ≤ s'.clock
  released : s.released = true → s'.released = true
  stopped : s'.stopped = true → s.stopped = true ∨ s'.released = true

theorem Onward.of_eq (limit : s'.limit = s.limit) (clock : s'.clock = s.clock)
    (released : s'.released = s.released) (stopped : s'.stopped = s.stopped) : Onward s s' :=
  ⟨limit, by omega, by rw [released]; exact id, by rw [stopped]; exact .inl⟩

theorem onward_perform (s : Session) (n : Nat) (topic : Topic) (what : Ask) :
    Onward s (s.perform n topic what).1 := by
  unfold perform
  cases what with
  | request | notify | subscribe =>
    simp only [applied_fst]
    exact .of_eq rfl rfl rfl rfl

theorem onward_step (s : Session) (a : Action) : Onward s (s.step a).1 := by
  have h := stepped s a
  generalize (s.step a).1 = s' at h ⊢
  cases h with
  | resumed n =>
    obtain ⟨_, _, _, _, _, frame⟩ := (byCall_resume s n).frame
    rw [frame]
    exact .of_eq rfl rfl rfl rfl
  | @asked n topic what rest =>
    have onward := onward_perform { s with commands := rest } n topic what
    exact ⟨onward.limit, onward.clock, onward.released, onward.stopped⟩
  | cancelled | received =>
    rw [applied_fst]
    exact .of_eq rfl rfl rfl rfl
  | closed _ _ _ cause =>
    rw [applied_fst]
    refine ⟨rfl, Nat.le_refl _, id, ?_⟩
    intro stopped
    rcases cause with ⟨-, last⟩ | ⟨same, -⟩
    · refine .inr ?_
      simp only [mayCommand, Bool.or_eq_false_iff] at last
      simpa using last.1
    · exact .inl (same ▸ stopped)
  | aside time =>
    refine ⟨rfl, ?_, id, .inl⟩
    dsimp only
    omega

theorem onward_undergo (s : Session) (d : Deed) : Onward s (s.undergo d).1 := by
  cases d with
  | act a => exact onward_step s a
  | begin | abandon => exact .of_eq rfl rfl rfl rfl
  | release => exact ⟨rfl, Nat.le_refl _, fun _ => rfl, .inl⟩

/-! ## Calls -/

/-- What can become of a call: it stays, gets further, or loses its caller. -/
inductive Evolves (s : Session) (n : Nat) (d : Deed) (c : Call) : Call → Prop
  | stays : Evolves s n d c c
  | moves {c' : Call} (goal : c'.goal = c.goal)
      (further : c.stage.reach < c'.stage.reach ∨ c.stage.reach = 4 ∧ c'.stage.reach = 4)
      (present : c'.stage ≠ .abandoned)
      (late : ∀ id deadline, c'.stage = .waiting id deadline → deadline = s.clock + s.limit) :
      Evolves s n d c c'
  | gone {c' : Call} (goal : c'.goal = c.goal) (leaves : d = .abandon n)
      (abandoned : c'.stage = .abandoned) : Evolves s n d c c'

theorem Turn.further {stage : Stage} {given : List Command} (t : Turn s n c stage given) :
    (c.stage.reach < stage.reach ∨ c.stage.reach = 4 ∧ stage.reach = 4) ∧
      stage ≠ .abandoned ∧ stage.reach ≠ 0 ∧ stage.reach ≠ 2 ∧
      ∀ id deadline, stage = .waiting id deadline → deadline = s.clock + s.limit := by
  have heard : ∀ {outcome given}, Heard s c outcome given → c.stage.reach < 4 := by
    intro outcome given heard
    cases heard with
    | refused at_ | done at_ | completed at_ | timedOut at_ => simp [at_, Stage.reach]
  cases t with
  | declines at_ | asks at_ | exits at_ | awaits at_ => simp [at_, Stage.reach]
  | ends h | leaves h =>
    exact ⟨.inl (heard h), by simp, by simp [Stage.reach], by simp [Stage.reach], by simp⟩
  | goesOn leaving on =>
    have beyond : ∀ stage : Stage, stage.isLeaving = true →
        stage.reach = 4 ∧ stage ≠ .abandoned ∧ ∀ id deadline, stage ≠ .waiting id deadline := by
      intro stage leaving
      cases stage with
      | answered topic => cases topic <;> simp_all [Stage.isLeaving, Stage.reach]
      | exiting | killed => simp [Stage.reach]
      | ready | asking | waiting | finished | abandoned => cases leaving
    obtain ⟨was, -, -⟩ := beyond c.stage leaving
    rcases on with leaving | ⟨rfl, -⟩
    · obtain ⟨now, present, quiet⟩ := beyond stage leaving
      refine ⟨.inr ⟨was, now⟩, present, by omega, by omega, ?_⟩
      intro id deadline waits
      exact absurd waits (quiet id deadline)
    · exact ⟨.inr ⟨was, rfl⟩, by simp, by simp [Stage.reach], by simp [Stage.reach], by simp⟩

theorem evolves_resume (hc : s.call? n = some c) (m : Nat) :
    ∃ c', (s.resume m).1.call? n = some c' ∧ Evolves s n (.act (.resume m)) c c' := by
  by_cases same : n = m
  · subst same
    rcases turned_resume hc with ⟨idle, -⟩ | ⟨stage, given, turn, turned⟩
    · rw [idle]
      exact ⟨c, hc, .stays⟩
    · obtain ⟨further, present, -, -, late⟩ := turn.further
      exact ⟨_, turned.call, .moves rfl further present late⟩
  · obtain ⟨f, -, calls⟩ := (byCall_resume s m).calls
    refine ⟨c, ?_, .stays⟩
    rw [calls, if_neg same, hc]

theorem evolves_undergo (h : s.Accounted) (d : Deed) (hc : s.call? n = some c) :
    ∃ c', (s.undergo d).1.call? n = some c' ∧ Evolves s n d c c' := by
  have happened := happened h.table.numbered d
  generalize (s.undergo d).1 = s' at happened ⊢
  cases happened with
  | resumed m => exact evolves_resume hc m
  | @asked m topic what _ _ carried =>
    obtain ⟨a, calls, -⟩ := carried.answered
    have found : s'.call? n = (s.answer m topic a).call? n := by
      rw [call?, calls, call?]
    rw [found, call?_answer]
    split
    · rw [hc]
      refine ⟨_, rfl, ?_⟩
      dsimp only
      split
      · rename_i asking
        refine .moves rfl ?_ (by simp [Call.answered]) (by simp [Call.answered])
        rw [asking]
        cases topic <;> simp [Call.answered, Stage.reach]
      · exact .stays
    · exact ⟨c, hc, .stays⟩
  | aside calls =>
    refine ⟨c, ?_, .stays⟩
    rw [call?, calls]
    exact hc
  | begun m goal =>
    refine ⟨c, ?_, .stays⟩
    rw [call?_begin_or, hc, Option.some_or]
  | abandoned m =>
    rw [call?_abandon]
    split
    · rename_i here
      rw [hc]
      refine ⟨_, rfl, ?_⟩
      dsimp only
      split
      · exact .stays
      · exact .gone rfl (by rw [here]) rfl
    · exact ⟨c, hc, .stays⟩

theorem Evolves.goal {d : Deed} {c' : Call} (e : Evolves s n d c c') : c'.goal = c.goal := by
  cases e with
  | stays => rfl
  | moves goal | gone goal => exact goal

theorem Evolves.reach_le {d : Deed} {c' : Call} (e : Evolves s n d c c') :
    c.stage.reach ≤ c'.stage.reach := by
  cases e with
  | stays => exact Nat.le_refl _
  | moves _ further => omega
  | gone _ _ abandoned =>
    rw [abandoned]
    exact c.stage.reach_le

theorem Evolves.eq_of_reach {d : Deed} {c' : Call} (e : Evolves s n d c c')
    (same : c'.stage.reach = c.stage.reach) (under : c'.stage.reach < 4) : c' = c := by
  cases e with
  | stays => rfl
  | moves _ further => omega
  | gone _ _ abandoned =>
    rw [abandoned] at under
    exact absurd under (by decide)

/-! ## The queue -/

/-- A session in which calls can come to their end. -/
structure Lively (s : Session) : Prop where
  accounted : s.Accounted
  timely : ∀ n c id deadline, s.call? n = some c → c.stage = .waiting id deadline →
    deadline ≤ s.clock + s.limit
  stopped : s.stopped = true → s.released = true

theorem lively_launch (language : String) (limit : Nat) (process : Option Nat) (clock : Nat) :
    (launch language limit process clock).Lively := by
  refine ⟨accounted_launch language limit process clock, ?_, ?_⟩
  · intro n c id deadline found
    cases found
  · intro stopped
    cases stopped

theorem call?_of_undergo (h : s.Accounted) {d : Deed} {c' : Call}
    (found : (s.undergo d).1.call? n = some c') :
    (∃ c, s.call? n = some c ∧ Evolves s n d c c') ∨
      s.call? n = none ∧ ∃ goal, d = .begin n goal ∧ c' = .start goal := by
  cases hc : s.call? n with
  | some c =>
    obtain ⟨e, found', evolves⟩ := evolves_undergo h d hc
    rw [found] at found'
    exact .inl ⟨c, rfl, Option.some.inj found' ▸ evolves⟩
  | none =>
    refine .inr ⟨rfl, ?_⟩
    have happened := happened h.table.numbered d
    generalize (s.undergo d).1 = s' at happened found
    cases happened with
    | resumed m =>
      obtain ⟨f, -, calls⟩ := (byCall_resume s m).calls
      rw [calls, hc] at found
      split at found <;> cases found
    | @asked m topic what _ _ carried =>
      obtain ⟨a, calls, -⟩ := carried.answered
      rw [call?, calls] at found
      rw [← call?, call?_answer, hc] at found
      split at found <;> cases found
    | aside calls =>
      rw [call?, calls] at found
      rw [← call?, hc] at found
      cases found
    | begun m goal =>
      rw [call?_begin_or, hc, Option.none_or] at found
      split at found
      · rename_i same
        exact ⟨goal, by rw [same], (Option.some.inj found).symm⟩
      · cases found
    | abandoned m =>
      rw [call?_abandon, hc] at found
      split at found <;> cases found

theorem Lively.undergo (h : s.Lively) (d : Deed) : (s.undergo d).1.Lively := by
  have onward := onward_undergo s d
  have limit := onward.limit
  have clock := onward.clock
  refine ⟨h.accounted.undergo d, ?_, ?_⟩
  · intro n c' id deadline found waits
    rcases call?_of_undergo h.accounted found with ⟨c, hc, evolves⟩ | ⟨-, goal, -, rfl⟩
    · cases evolves with
      | stays =>
        have timely := h.timely n c' id deadline hc waits
        omega
      | moves _ _ _ late =>
        have set := late id deadline waits
        omega
      | gone _ _ abandoned =>
        rw [abandoned] at waits
        cases waits
    · cases waits
  · intro stopped
    rcases onward.stopped stopped with was | released
    · exact onward.released (h.stopped was)
    · exact released

theorem Lively.through (h : s.Lively) (deeds : List Deed) : (s.through deeds).Lively := by
  induction deeds generalizing s with
  | nil => exact h
  | cons d deeds ih => exact ih (h.undergo d)

/-- Whether the ask of a call, if it is in the queue, comes after fewer than so many
commands. -/
def AskedWithin (s : Session) (n k : Nat) : Prop :=
  ∀ c, s.call? n = some c → c.stage = .asking .main →
    ∃ what front back, s.commands = front ++ .ask n .main what :: back ∧ front.length < k

theorem askedWithin_length (h : s.Accounted) (n : Nat) : s.AskedWithin n s.commands.length := by
  intro c hc asking
  have asks := (h.owned n c hc).asks
  unfold Call.Asks at asks
  rw [asking] at asks
  obtain ⟨what, own, -⟩ := asks
  have mem : .ask n .main what ∈ s.commands := by
    have here : .ask n .main what ∈ s.asksOf n := by
      rw [own]
      exact List.mem_singleton_self _
    exact (List.mem_filter.mp here).1
  obtain ⟨front, back, split⟩ := List.append_of_mem mem
  refine ⟨what, front, back, split, ?_⟩
  rw [split]
  simp

theorem not_asking_of_carried {topic : Topic} {what : Ask} (carried : Carried s s' n topic what)
    (hc : s.call? n = some c) {c' : Call} (found : s'.call? n = some c')
    (asking : c.stage = .asking topic) : c'.stage ≠ .asking .main := by
  obtain ⟨a, calls, -⟩ := carried.answered
  have same : s'.call? n = (s.answer n topic a).call? n := by
    rw [call?, calls, call?]
  rw [same, call?_answer, if_pos rfl, hc, Option.map_some, if_pos asking] at found
  rw [← Option.some.inj found]
  simp [Call.answered]

/-- A call that has asked and still asks has not changed. -/
theorem asking_of_undergo (h : s.Accounted) {d : Deed} (hc : s.call? n = some c)
    (asked : c.stage.reach ≠ 0) {c' : Call} (found : (s.undergo d).1.call? n = some c')
    (asking : c'.stage = .asking .main) : c'.stage = c.stage ∧ c.stage = .asking .main := by
  obtain ⟨e, found', evolves⟩ := evolves_undergo h d hc
  obtain rfl : e = c' := Option.some.inj (found'.symm.trans found)
  have le := evolves.reach_le
  have one : e.stage.reach = 1 := by rw [asking]; rfl
  have same := evolves.eq_of_reach (by omega) (by omega)
  exact ⟨by rw [same], same ▸ asking⟩

/-- Whatever happens, an ask does not move back in the queue. -/
theorem AskedWithin.undergo (within : s.AskedWithin n k) (h : s.Accounted)
    (hc : s.call? n = some c) (asked : c.stage.reach ≠ 0) (d : Deed) :
    (s.undergo d).1.AskedWithin n k := by
  intro c' found asking
  obtain ⟨-, was⟩ := asking_of_undergo h hc asked found asking
  obtain ⟨what, front, back, split, shorter⟩ := within c hc was
  have happened := happened h.table.numbered d
  generalize (s.undergo d).1 = s' at happened found ⊢
  -- What the queue loses comes before the ask, and what it gains comes after it.
  have longer : ∀ given, s'.commands = s.commands ++ given →
      ∃ what front back, s'.commands = front ++ .ask n .main what :: back ∧ front.length < k := by
    intro given gains
    refine ⟨what, front, back ++ given, ?_, shorter⟩
    rw [gains, split, List.append_assoc, List.cons_append]
  have behind : ∀ command, s.commands = command :: s'.commands → command ≠ .ask n .main what →
      ∃ what front back, s'.commands = front ++ .ask n .main what :: back ∧ front.length < k := by
    intro command loses other
    rw [loses] at split
    cases front with
    | nil => exact absurd (List.cons.inj split).1 other
    | cons first front =>
      refine ⟨what, front, back, (List.cons.inj split).2, ?_⟩
      rw [List.length_cons] at shorter
      omega
  cases happened with
  | resumed m =>
    cases hm : s.call? m with
    | none =>
      have idle : s.resume m = (s, []) := by rw [Session.resume, hm]
      rw [idle]
      exact within c hc was
    | some e =>
      rcases turned_resume hm with ⟨idle, -⟩ | ⟨stage, given, -, turned⟩
      · rw [idle]
        exact within c hc was
      · exact longer given turned.commands
  | @asked m topic done _ queue carried =>
    refine behind _ queue ?_
    intro same
    obtain ⟨rfl, rfl, rfl⟩ := Command.ask.inj same
    exact not_asking_of_carried carried hc found was asking
  | aside _ _ _ queue =>
    rcases queue.cases with ⟨given, gains⟩ | ⟨command, loses, notAsk⟩
    · exact longer given gains
    · refine behind command loses ?_
      intro same
      rw [same] at notAsk
      cases notAsk
  | begun | abandoned => exact longer [] (List.append_nil _).symm

theorem commands_serve {command : Command} {rest : List Command} (running : s.stopped = false)
    (queue : s.commands = command :: rest) : s.serve.1.commands = rest := by
  unfold serve
  rw [queue]
  simp only [running, Bool.false_eq_true, if_false]
  cases command with
  | ask n topic what => exact (frame_perform _ n topic what).1
  | cancel id => rw [applied_fst]
  | close => rw [applied_fst]

/-- With every command that the dispatcher takes, an ask moves up. -/
theorem AskedWithin.serve (within : s.AskedWithin n (k + 1)) (h : s.Accounted)
    (running : s.stopped = false) (hc : s.call? n = some c) (asked : c.stage.reach ≠ 0) :
    (s.undergo (.act .serve)).1.AskedWithin n k := by
  intro c' found asking
  obtain ⟨-, was⟩ := asking_of_undergo h hc asked found asking
  obtain ⟨what, front, back, split, shorter⟩ := within c hc was
  cases front with
  | nil =>
    -- The ask itself is carried out, so the call asks no longer.
    exfalso
    have served : s.serve = perform { s with commands := back } n .main what := by
      unfold Session.serve
      rw [split]
      simp [running]
    have carried := carried_perform (s := { s with commands := back }) h.table.numbered n .main what
    rw [← served] at carried
    exact not_asking_of_carried carried hc found was asking
  | cons first front =>
    refine ⟨what, front, back, commands_serve running split, ?_⟩
    rw [List.length_cons] at shorter
    omega

/-! ## Runs -/

theorem reach_through (h : s.Accounted) (hc : s.call? n = some c) (deeds : List Deed) :
    ∃ c', (s.through deeds).call? n = some c' ∧ c'.goal = c.goal ∧
      c.stage.reach ≤ c'.stage.reach ∧
      (c'.stage.reach = c.stage.reach → c'.stage.reach < 4 → c' = c) := by
  induction deeds generalizing s c with
  | nil => exact ⟨c, hc, rfl, Nat.le_refl _, fun _ _ => rfl⟩
  | cons d deeds ih =>
    obtain ⟨c₁, hc₁, evolves⟩ := evolves_undergo h d hc
    obtain ⟨c₂, hc₂, goal, le, same⟩ := ih (h.undergo d) hc₁
    have first := evolves.reach_le
    refine ⟨c₂, hc₂, goal.trans evolves.goal, by omega, ?_⟩
    intro equal under
    have middle := same (by omega) under
    rw [middle] at equal under ⊢
    exact evolves.eq_of_reach equal under

theorem released_of_undergo {d : Deed} (held : (s.undergo d).1.released = false) :
    s.released = false := by
  by_contra released
  have later := (onward_undergo s d).released (by simpa using released)
  rw [later] at held
  cases held

theorem released_of_through {deeds : List Deed} (held : (s.through deeds).released = false) :
    s.released = false := by
  induction deeds generalizing s with
  | nil => exact held
  | cons d deeds ih => exact released_of_undergo (ih held)

theorem limit_through (s : Session) (deeds : List Deed) : (s.through deeds).limit = s.limit := by
  induction deeds generalizing s with
  | nil => rfl
  | cons d deeds ih => exact (ih _).trans (onward_undergo s d).limit

/-- A call that has asked gets its answer when the dispatcher takes enough commands. -/
theorem answered_of_served (h : s.Lively) (hc : s.call? n = some c) (asked : c.stage.reach ≠ 0)
    {deeds : List Deed} (within : s.AskedWithin n (deeds.count (.act .serve)))
    (held : (s.through deeds).released = false) :
    ∃ c', (s.through deeds).call? n = some c' ∧ 2 ≤ c'.stage.reach := by
  induction deeds generalizing s c with
  | nil =>
    refine ⟨c, hc, ?_⟩
    by_contra less
    have asking : c.stage = .asking .main := by
      cases at_ : c.stage with
      | asking topic | answered topic => cases topic <;> simp_all [Stage.reach]
      | ready | waiting | exiting | killed | finished | abandoned => simp_all [Stage.reach]
    obtain ⟨-, front, -, -, shorter⟩ := within c hc asking
    exact Nat.not_lt_zero _ shorter
  | cons d deeds ih =>
    obtain ⟨c', hc', evolves⟩ := evolves_undergo h.accounted d hc
    have le := evolves.reach_le
    refine ih (h.undergo d) hc' (by omega) ?_ held
    by_cases serves : d = .act .serve
    · subst serves
      have running : s.stopped = false := by
        by_contra stopped
        have released := h.stopped (by simpa using stopped)
        rw [released_of_through held] at released
        cases released
      rw [List.count_cons_self] at within
      exact within.serve h.accounted running hc asked
    · rw [List.count_cons_of_ne serves] at within
      exact within.undergo h.accounted hc asked d

/-- A call that goes on asks, and with an answer it waits or ends. -/
theorem reach_resume (hc : s.call? n = some c) :
    ∃ c', (s.undergo (.act (.resume n))).1.call? n = some c' ∧ c.stage.reach ≤ c'.stage.reach ∧
      c'.stage.reach ≠ 0 ∧ c'.stage.reach ≠ 2 ∧
      (3 ≤ c.stage.reach → c'.stage.reach = 4 ∨ ∃ id deadline, c.stage = .waiting id deadline ∧
        s.clock < deadline) := by
  simp only [undergo, step]
  rcases turned_resume hc with ⟨idle, rests⟩ | ⟨stage, given, turn, turned⟩
  · rw [idle]
    refine ⟨c, hc, Nat.le_refl _, ?_⟩
    unfold Rests at rests
    cases at_ : c.stage with
    | ready | answered =>
      rw [at_] at rests
      exact rests.elim
    | waiting id deadline =>
      rw [at_] at rests
      exact ⟨by simp [Stage.reach], by simp [Stage.reach],
      fun _ => .inr ⟨id, deadline, rfl, rests.2⟩⟩
    | asking topic => cases topic <;> simp [Stage.reach]
    | exiting | killed | finished | abandoned => simp [Stage.reach]
  · obtain ⟨further, -, asks, answered, -⟩ := turn.further
    refine ⟨_, turned.call, ?_, asks, answered, ?_⟩
    · dsimp only
      omega
    · intro waits
      refine .inl ?_
      have most := stage.reach_le
      dsimp only
      omega

theorem AskedWithin.mono {j : Nat} (within : s.AskedWithin n j) (le : j ≤ k) :
    s.AskedWithin n k := by
  intro c hc asking
  obtain ⟨what, front, back, split, shorter⟩ := within c hc asking
  exact ⟨what, front, back, split, by omega⟩

theorem through_nil (s : Session) : s.through [] = s := rfl

theorem through_cons (s : Session) (d : Deed) (deeds : List Deed) :
    s.through (d :: deeds) = (s.undergo d).1.through deeds := rfl

/-- A call gets its turns: it goes on, the dispatcher takes as many commands as are then in
the queue, the call goes on, its time passes, and it goes on.  Anything else may happen in
between, but its caller stays and nobody releases the session. -/
structure Attended (s : Session) (n : Nat) (deeds : List Deed) : Prop where
  turns : ∃ first serving passing rest, deeds =
      first ++ (.act (.resume n) :: serving) ++ (.act (.resume n) :: passing) ++
        (.act (.resume n) :: rest) ∧
    (s.through (first ++ [.act (.resume n)])).commands.length ≤ serving.count (.act .serve) ∧
    (s.through (first ++ (.act (.resume n) :: serving) ++ [.act (.resume n)])).clock + s.limit ≤
      (s.through (first ++ (.act (.resume n) :: serving) ++ (.act (.resume n) :: passing))).clock
  stays : .abandon n ∉ deeds
  held : (s.through deeds).released = false

/-- A call that gets its turns comes to its end. -/
theorem reach_of_attended (h : s.Lively) (hc : s.call? n = some c) {deeds : List Deed}
    (attended : s.Attended n deeds) :
    ∃ c', (s.through deeds).call? n = some c' ∧ c'.stage.reach = 4 := by
  obtain ⟨first, serving, passing, rest, rfl, serves, passes⟩ := attended.turns
  have held := attended.held
  have limit₁ := limit_through s first
  simp only [through_append, through_cons, through_nil] at serves passes held limit₁ ⊢
  obtain ⟨c₁, hc₁, -⟩ := reach_through h.accounted hc first
  have h₁ := h.through first
  generalize s.through first = s₁ at *
  -- The call goes on, so it has asked.
  obtain ⟨c₂, hc₂, -, asked, -⟩ := reach_resume hc₁
  have h₂ := h₁.undergo (.act (.resume n))
  have limit₂ := (onward_undergo s₁ (.act (.resume n))).limit
  generalize (s₁.undergo (.act (.resume n))).1 = s₂ at *
  -- The dispatcher takes its ask, and the call has its answer.
  have within := (askedWithin_length h₂.accounted n).mono serves
  have held₃ := released_of_undergo (released_of_through (released_of_undergo
    (released_of_through held)))
  obtain ⟨c₃, hc₃, answered⟩ := answered_of_served h₂ hc₂ asked within held₃
  have h₃ := h₂.through serving
  have limit₃ := limit_through s₂ serving
  generalize s₂.through serving = s₃ at *
  -- It goes on with the answer, so it waits or is past that.
  obtain ⟨c₄, hc₄, le₄, -, waits, -⟩ := reach_resume hc₃
  have h₄ := h₃.undergo (.act (.resume n))
  have limit₄ := (onward_undergo s₃ (.act (.resume n))).limit
  generalize (s₃.undergo (.act (.resume n))).1 = s₄ at *
  -- Its time passes, so it does not rest when it goes on again.
  obtain ⟨c₅, hc₅, -, le₅, same⟩ := reach_through h₄.accounted hc₄ passing
  have h₅ := h₄.through passing
  generalize s₄.through passing = s₅ at *
  obtain ⟨c₆, hc₆, -, -, -, ends⟩ := reach_resume hc₅
  have h₆ := h₅.undergo (.act (.resume n))
  generalize (s₅.undergo (.act (.resume n))).1 = s₆ at *
  have beyond : c₆.stage.reach = 4 := by
    rcases ends (by omega) with beyond | ⟨id, deadline, at_, early⟩
    · exact beyond
    · exfalso
      have three : c₅.stage.reach = 3 := by rw [at_]; rfl
      have still := same (by omega) (by omega)
      have timely := h₄.timely n c₄ id deadline hc₄ (still ▸ at_)
      omega
  obtain ⟨c₇, hc₇, -, le₇, -⟩ := reach_through h₆.accounted hc₆ rest
  have most := c₇.stage.reach_le
  exact ⟨c₇, hc₇, by omega⟩

theorem present_through (h : s.Accounted) (hc : s.call? n = some c)
    (present : c.stage ≠ .abandoned) {deeds : List Deed} (stays : .abandon n ∉ deeds) :
    ∃ c', (s.through deeds).call? n = some c' ∧ c'.stage ≠ .abandoned := by
  induction deeds generalizing s c with
  | nil => exact ⟨c, hc, present⟩
  | cons d deeds ih =>
    obtain ⟨c', hc', evolves⟩ := evolves_undergo h d hc
    refine ih (h.undergo d) hc' ?_ fun mem => stays (List.mem_cons_of_mem _ mem)
    cases evolves with
    | stays => exact present
    | moves _ _ present => exact present
    | gone _ leaves => exact absurd (leaves ▸ List.mem_cons_self) stays

end Session

end LanguageClient
