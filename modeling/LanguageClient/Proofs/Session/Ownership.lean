import LanguageClient.Proofs.Session.Table
import LanguageClient.Proofs.Session.Turns

/-!
# Who owns a number

Every number that was handed out belongs to at most one call.  While the call waits,
nobody gives its request up; once it does not wait any more, the request has ended or
its cancellation stands in the queue.  `Accounted` holds in every run.
-/

set_option autoImplicit false

namespace LanguageClient

/-- Whether a command is an ask of a call. -/
def Command.isFrom (n : Nat) : Command → Bool
  | .ask m _ _ => m == n
  | .cancel _ | .close => false

/-- Whether a call at a stage can have no number yet. -/
def Stage.isFresh : Stage → Bool
  | .ready | .asking .main | .answered .main (.error _) | .answered .main (.ok none) => true
  | _ => false

/-- Whether some asks are those that the queue holds of a call. -/
def Call.Asks (n : Nat) (c : Call) (asks : List Command) : Prop :=
  match c.stage with
  | .asking .main => ∃ what, asks = [.ask n .main what] ∧
      ∃ phase, c.goal.opening phase = .ask what
  | .asking .exit => asks = [.ask n .exit .exit]
  | .abandoned => True
  | _ => asks = []

/-- The number that an answer brings. -/
def Answer.number? : Answer → Option Int
  | .ok number => number
  | .error _ => none

/-- A call that has got its answer. -/
def Call.answered (c : Call) (topic : Topic) (a : Answer) : Call :=
  { c with
    stage := .answered topic a
    number := (Answer.number? a).or c.number }

namespace Session

open Dispatcher

variable {s s' : Session} {n m : Nat} {c : Call} {op : Option (Op String)}

/-- The asks of a call in the queue. -/
def asksOf (s : Session) (n : Nat) : List Command := s.commands.filter (Command.isFrom n)

/-! ## Ended requests -/

/-- The table of requests and the list of ended ones fit together. -/
structure Tabled (s : Session) : Prop where
  numbered : s.dispatcher.Numbered
  pending : ∀ id ∈ s.dispatcher.pending, s.completion? id = none
  ended : ∀ id, (s.completion? id).isSome = true → id < s.dispatcher.nextId

theorem Tabled.worked (h : s.Tabled) (w : Worked op s s') : s'.Tabled := by
  refine ⟨w.numbered, ?_, ?_⟩
  · intro id mem
    rw [w.completion id]
    rcases w.new id mem with was | rfl
    · have old := h.numbered.lt_nextId id was
      obtain ⟨-, spared⟩ := (w.old id old).mp mem
      simp [h.pending id was, spared]
    · -- Nothing can have happened yet to a number that is handed out now.
      have absent : s.dispatcher.nextId ∉ s.dispatcher.pending := by
        intro was
        exact absurd (h.numbered.lt_nextId _ was) (Int.lt_irrefl _)
      have unended : s.completion? s.dispatcher.nextId = none := by
        by_contra ended
        exact absurd (h.ended _ (Option.isSome_iff_ne_none.mpr ended)) (Int.lt_irrefl _)
      simp [unended, absent]
  · intro id ended
    have next := w.next
    rw [w.completion id] at ended
    by_cases was : (s.completion? id).isSome = true
    · have old := h.ended id was
      omega
    · have mem : id ∈ s.dispatcher.pending := by
        by_contra absent
        simp [absent, was] at ended
      have old := h.numbered.lt_nextId id mem
      omega

theorem eq_cancel_of_dropped {id : Int} (ends : op.bind (Op.ending? id) = some .dropped) :
    op = some (.cancel id) := by
  cases op with
  | none => cases ends
  | some op =>
    simp only [Option.bind_some] at ends
    cases op with
    | receive m =>
      rw [Op.ending?_receive, Option.map_eq_some_iff] at ends
      obtain ⟨outcome, -, beyond⟩ := ends
      exact absurd beyond (completionOf_ne outcome).2
    | cancel k =>
      simp only [Op.ending?] at ends
      split at ends
      · rename_i same
        rw [same]
      · cases ends
    | request | notify | subscribe | close | failAll | dropWriter | forget => cases ends

/-! ## The queue -/

/-- What happens to a session apart from what becomes of its calls. -/
structure Passed (op : Option (Op String)) (s s' : Session) : Prop where
  worked : Worked op s s'
  kept : ∀ id, .cancel id ∈ s.commands → .cancel id ∈ s'.commands ∨ op = some (.cancel id)
  own : ∀ id, op = some (.cancel id) → .cancel id ∈ s.commands

/-- A request that has ended, or is being given up, stays so. -/
theorem Passed.spent (p : Passed op s s') {id : Int} (issued : id < s.dispatcher.nextId)
    (spent : id ∉ s.dispatcher.pending ∨ .cancel id ∈ s.commands) :
    id ∉ s'.dispatcher.pending ∨ .cancel id ∈ s'.commands := by
  rw [p.worked.old id issued]
  rcases spent with gone | queued
  · exact .inl fun mem => gone mem.1
  · rcases p.kept id queued with still | now
    · exact .inr still
    · refine .inl fun mem => ?_
      simp [now, Op.ending?] at mem

/-- A request that is pending or has ended does not get lost. -/
theorem Worked.held (w : Worked op s s') {id : Int} (issued : id < s.dispatcher.nextId)
    (held : id ∈ s.dispatcher.pending ∨ (s.completion? id).isSome = true) :
    id ∈ s'.dispatcher.pending ∨ (s'.completion? id).isSome = true := by
  rw [w.old id issued, w.completion id]
  rcases held with mem | ended
  · cases ends : op.bind (Op.ending? id) with
    | none => exact .inl ⟨mem, rfl⟩
    | some completion => exact .inr (by simp [mem])
  · exact .inr (by simp [ended])

theorem Requeued.filter_isFrom {commands commands' : List Command}
    (h : Requeued op commands commands') (n : Nat) :
    commands'.filter (Command.isFrom n) = commands.filter (Command.isFrom n) := by
  cases h with
  | same => rfl
  | closed | cancelled => simp [Command.isFrom]
  | exited => simp [Command.isFrom]

theorem Requeued.cancel_mem {commands commands' : List Command}
    (h : Requeued op commands commands') {id : Int} (mem : .cancel id ∈ commands') :
    .cancel id ∈ commands := by
  cases h with
  | same => exact mem
  | closed | cancelled => exact List.mem_cons_of_mem _ mem
  | exited => simpa using mem

theorem Requeued.passed (h : Requeued op s.commands s'.commands) (w : Worked op s s') :
    Passed op s s' := by
  generalize before : s.commands = commands at h
  generalize after : s'.commands = commands' at h
  refine ⟨w, ?_, ?_⟩
  · intro id mem
    rw [before] at mem
    rw [after]
    cases h with
    | same => exact .inl mem
    | closed => exact .inl (by simpa using mem)
    | exited => exact .inl (List.mem_append_left _ mem)
    | @cancelled k _ own =>
      rcases List.mem_cons.mp mem with here | there
      · exact .inr (by rw [own, Command.cancel.inj here])
      · exact .inl there
  · intro id cancels
    rw [before]
    cases h with
    | same other => exact absurd cancels (other id)
    | closed other => exact absurd cancels (other id)
    | exited other => exact absurd cancels (other id)
    | cancelled own =>
      rw [own] at cancels
      rw [Op.cancel.inj (Option.some.inj cancels)]
      exact List.mem_cons_self

/-! ## Owners -/

/-- What a session holds of a call and of its number. -/
structure Owned (s : Session) (n : Nat) (c : Call) : Prop where
  asks : c.Asks n (s.asksOf n)
  fresh : c.stage.isFresh = true → c.number = none
  issued : ∀ id, c.number = some id → id < s.dispatcher.nextId
  held : ∀ id, c.number = some id →
    id ∈ s.dispatcher.pending ∨ (s.completion? id).isSome = true
  awaited : ∀ id, c.stage.awaited = some id →
    c.number = some id ∧ .cancel id ∉ s.commands ∧ s.completion? id ≠ some .dropped
  spent : ∀ id, c.number = some id → c.stage.awaited = none → c.stage ≠ .abandoned →
    id ∉ s.dispatcher.pending ∨ .cancel id ∈ s.commands

theorem Owned.passed (h : s.Owned n c) (p : Passed op s s') (asks : s'.asksOf n = s.asksOf n)
    (spared : ∀ id, c.stage.awaited = some id → .cancel id ∉ s.commands →
      .cancel id ∉ s'.commands) : s'.Owned n c := by
  refine ⟨asks ▸ h.asks, h.fresh, ?_, ?_, ?_, ?_⟩
  · intro id number
    have old := h.issued id number
    have next := p.worked.next
    omega
  · intro id number
    exact p.worked.held (h.issued id number) (h.held id number)
  · intro id awaited
    obtain ⟨number, uncancelled, kept⟩ := h.awaited id awaited
    refine ⟨number, spared id awaited uncancelled, ?_⟩
    -- To drop the request its cancellation would have to be in the queue.
    intro dropped
    rw [p.worked.completion id] at dropped
    rcases Option.or_eq_some_iff.mp dropped with was | ⟨-, now⟩
    · exact kept was
    · split at now
      · exact uncancelled (p.own id (eq_cancel_of_dropped now))
      · cases now
  · intro id number unawaited present
    exact p.spent (h.issued id number) (h.spent id number unawaited present)

/-- A call whose caller has gone away has nothing to own but a number it may have. -/
theorem Owned.gone (h : s.Owned n c) (w : Worked op s s') {d : Call}
    (gone : d.stage = .abandoned) (number : d.number = c.number) : s'.Owned n d := by
  refine ⟨?_, ?_, ?_, ?_, ?_, ?_⟩
  · unfold Call.Asks
    rw [gone]
    trivial
  · intro fresh
    rw [gone] at fresh
    cases fresh
  · intro id mine
    have issued := h.issued id (number ▸ mine)
    have next := w.next
    omega
  · intro id mine
    exact w.held (h.issued id (number ▸ mine)) (h.held id (number ▸ mine))
  · intro id awaited
    rw [gone] at awaited
    cases awaited
  · intro id _ _ present
    exact absurd gone present

/-- All calls own what is theirs. -/
structure Accounted (s : Session) : Prop where
  table : s.Tabled
  cancels : ∀ id, .cancel id ∈ s.commands → id < s.dispatcher.nextId
  absent : ∀ n, s.call? n = none → s.asksOf n = []
  owned : ∀ n c, s.call? n = some c → s.Owned n c
  distinct : ∀ n m c d id, s.call? n = some c → s.call? m = some d →
    c.number = some id → d.number = some id → n = m

theorem accounted_launch (language : String) (limit : Nat) (process : Option Nat) (clock : Nat) :
    (launch language limit process clock).Accounted := by
  refine ⟨⟨numbered_empty, ?_, ?_⟩, ?_, fun _ _ => rfl, ?_, ?_⟩
  · intro id mem
    rfl
  · intro id ended
    cases ended
  · intro id mem
    cases mem
  · intro n c found
    cases found
  · intro n m c d id found
    cases found

theorem Accounted.aside (h : s.Accounted) (calls : s'.calls = s.calls) (worked : Worked op s s')
    (queue : Requeued op s.commands s'.commands) : s'.Accounted := by
  have same : ∀ n, s'.call? n = s.call? n := fun n => by rw [call?, calls, call?]
  have asks : ∀ n, s'.asksOf n = s.asksOf n := queue.filter_isFrom
  refine ⟨h.table.worked worked, ?_, ?_, ?_, ?_⟩
  · intro id mem
    have old := h.cancels id (queue.cancel_mem mem)
    have next := worked.next
    omega
  · intro n none
    rw [asks]
    exact h.absent n (same n ▸ none)
  · intro n c found
    refine (h.owned n c (same n ▸ found)).passed (queue.passed worked) (asks n) ?_
    intro id _ uncancelled mem
    exact uncancelled (queue.cancel_mem mem)
  · intro n m c d id hc hd
    rw [same] at hc hd
    exact h.distinct n m c d id hc hd

/-- Changing one call leaves everything accounted for when the call keeps its number, or gets
the next one, and owns what is now its own. -/
theorem Accounted.change (h : s.Accounted) (hc : s.call? n = some c) {d : Call}
    (calls : ∀ m, s'.call? m = if m = n then some d else s.call? m) (passed : Passed op s s')
    (asks : ∀ m ≠ n, s'.asksOf m = s.asksOf m)
    (cancels : ∀ id, .cancel id ∈ s'.commands → .cancel id ∈ s.commands ∨ c.number = some id)
    (number : d.number = c.number ∨ d.number = some s.dispatcher.nextId)
    (owned : s'.Owned n d) : s'.Accounted := by
  have next := passed.worked.next
  -- The number is not that of another call.
  have own : ∀ m e id, m ≠ n → s.call? m = some e → e.number = some id → d.number ≠ some id := by
    intro m e id other he hid same
    rcases number with kept | issued
    · exact other (h.distinct m n e c id he hc hid (kept ▸ same))
    · have old := (h.owned m e he).issued id hid
      rw [issued] at same
      have new := Option.some.inj same
      omega
  refine ⟨h.table.worked passed.worked, ?_, ?_, ?_, ?_⟩
  · intro id mem
    rcases cancels id mem with was | mine
    · have old := h.cancels id was
      omega
    · have old := (h.owned n c hc).issued id mine
      omega
  · intro m none
    rw [calls] at none
    split at none
    · cases none
    · rename_i other
      rw [asks m other]
      exact h.absent m none
  · intro m e he
    rw [calls] at he
    split at he
    · rename_i same
      rw [same, ← Option.some.inj he]
      exact owned
    · rename_i other
      refine (h.owned m e he).passed passed (asks m other) ?_
      intro id awaited uncancelled mem
      rcases cancels id mem with was | mine
      · exact uncancelled was
      · obtain ⟨theirs, -, -⟩ := (h.owned m e he).awaited id awaited
        exact other (h.distinct m n e c id he hc theirs mine)
  · intro m k e f id he hf hid hid'
    rw [calls] at he hf
    split at he <;> split at hf
    · rename_i first second
      rw [first, second]
    · rename_i first other
      cases he
      exact absurd hid (own k f id other hf hid')
    · rename_i other second
      cases hf
      exact absurd hid' (own m e id other he hid)
    · exact h.distinct m k e f id he hf hid hid'

/-! ## Turns -/

variable {stage : Stage} {given : List Command} {outcome : Except ClientError Json} {id : Int}

/-- A call that learns its outcome gives up at most the request that it has waited for. -/
theorem Heard.cancel_mem (h : Heard s c outcome given) (mem : .cancel id ∈ given) :
    c.stage.awaited = some id := by
  cases h with
  | refused | done | completed => cases mem
  | timedOut at_ =>
    rw [Command.cancel.inj (List.mem_singleton.mp mem), at_]
    rfl

theorem Heard.filter_isFrom (h : Heard s c outcome given) (m : Nat) :
    given.filter (Command.isFrom m) = [] := by
  cases h <;> rfl

theorem Heard.settles (h : Heard s c outcome given) (awaited : c.stage.awaited = some id) :
    (s.completion? id).isSome = true ∨ .cancel id ∈ given := by
  cases h with
  | refused at_ | done at_ =>
    rw [at_] at awaited
    cases awaited
  | completed at_ found =>
    rw [at_] at awaited
    cases awaited
    exact .inl (by rw [found]; rfl)
  | timedOut at_ =>
    rw [at_] at awaited
    cases awaited
    exact .inr (List.mem_singleton_self _)

theorem Turn.cancel_mem (t : Turn s n c stage given) (mem : .cancel id ∈ given) :
    c.stage.awaited = some id := by
  cases t with
  | declines | awaits => cases mem
  | asks | exits => simp at mem
  | ends heard => exact heard.cancel_mem mem
  | leaves heard => exact heard.cancel_mem (by simpa using mem)
  | goesOn _ _ closes => rcases closes with rfl | rfl <;> simp at mem

theorem Turn.filter_isFrom (t : Turn s n c stage given) (other : m ≠ n) :
    given.filter (Command.isFrom m) = [] := by
  have notIt : n ≠ m := Ne.symm other
  cases t with
  | declines | awaits => rfl
  | asks | exits => simp [Command.isFrom, notIt]
  | ends heard => exact heard.filter_isFrom m
  | leaves heard => simp [heard.filter_isFrom, Command.isFrom, notIt]
  | goesOn _ _ closes => rcases closes with rfl | rfl <;> rfl

theorem Turn.under_way (t : Turn s n c stage given) :
    c.stage ≠ .abandoned ∧ c.stage.result? = none := by
  cases t with
  | declines at_ | asks at_ | exits at_ | awaits at_ => simp [at_, Stage.result?]
  | ends heard | leaves heard =>
    cases heard with
    | refused at_ | done at_ | completed at_ | timedOut at_ => simp [at_, Stage.result?]
  | goesOn leaving => cases at_ : c.stage <;> simp_all [Stage.isLeaving, Stage.result?]

theorem Turn.rested (t : Turn s n c stage given) {asks : List Command} (h : c.Asks n asks) :
    asks = [] := by
  unfold Call.Asks at h
  cases t with
  | declines ready | asks ready | exits ready | awaits ready =>
    rw [ready] at h
    exact h
  | ends heard | leaves heard =>
    cases heard with
    | refused at_ | done at_ | completed at_ | timedOut at_ =>
      rw [at_] at h
      exact h
  | goesOn leaving =>
    cases at_ : c.stage with
    | answered topic =>
      rw [at_] at h
      exact h
    | exiting | killed =>
      rw [at_] at h
      exact h
    | ready | asking | waiting | finished | abandoned =>
      rw [at_] at leaving
      cases leaving

/-- What a call leaves in the queue is what it then waits for. -/
theorem Turn.asks_given (t : Turn s n c stage given) :
    ({ c with stage := stage } : Call).Asks n (given.filter (Command.isFrom n)) := by
  cases t with
  | declines | awaits => exact rfl
  | @asks what _ opens =>
    exact ⟨what, by simp [Command.isFrom], s.phase, opens⟩
  | exits => simp [Call.Asks, Command.isFrom]
  | ends heard => exact heard.filter_isFrom n
  | leaves heard => simp [Call.Asks, heard.filter_isFrom, Command.isFrom]
  | goesOn _ on closes =>
    have nothing : given.filter (Command.isFrom n) = [] := by
      rcases closes with rfl | rfl <;> rfl
    rw [nothing]
    unfold Call.Asks
    rcases on with leaving | ⟨rfl, -⟩
    · cases stage with
      | answered | exiting | killed => exact rfl
      | ready | asking | waiting | finished | abandoned => cases leaving
    · exact rfl

theorem Turn.fresh (t : Turn s n c stage given) (fresh : stage.isFresh = true) :
    c.stage.isFresh = true := by
  cases t with
  | declines ready | asks ready | exits ready => rw [ready]; rfl
  | awaits | ends | leaves => cases fresh
  | goesOn _ on =>
    rcases on with leaving | ⟨rfl, -⟩
    · cases stage with
      | answered topic => cases topic <;> simp_all [Stage.isLeaving, Stage.isFresh]
      | exiting | killed => cases fresh
      | ready | asking | waiting | finished | abandoned => cases leaving
    · cases fresh

/-- A call begins to wait for the number that it has been given, and it asks for nothing then. -/
theorem Turn.awaited (t : Turn s n c stage given) (awaited : stage.awaited = some id) :
    c.stage.awaited = some id ∧ given = [] := by
  cases t with
  | awaits granted =>
    rw [granted]
    exact ⟨awaited, rfl⟩
  | declines | asks | exits | ends | leaves => cases awaited
  | goesOn _ on =>
    rcases on with leaving | ⟨rfl, -⟩
    · cases stage with
      | answered topic a => cases topic <;> simp_all [Stage.isLeaving, Stage.awaited]
      | exiting | killed => cases awaited
      | ready | asking | waiting | finished | abandoned => cases leaving
    · cases awaited

theorem Turn.settles (t : Turn s n c stage given) (awaited : c.stage.awaited = some id)
    (unawaited : stage.awaited = none) :
    (s.completion? id).isSome = true ∨ .cancel id ∈ given := by
  cases t with
  | declines ready | asks ready | exits ready =>
    rw [ready] at awaited
    cases awaited
  | awaits => cases unawaited
  | ends heard => exact heard.settles awaited
  | leaves heard =>
    rcases heard.settles awaited with ended | mem
    · exact .inl ended
    · exact .inr (List.mem_append_left _ mem)
  | goesOn leaving =>
    cases at_ : c.stage with
    | answered topic => cases topic <;> simp_all [Stage.isLeaving, Stage.awaited]
    | exiting | killed =>
      rw [at_] at awaited
      cases awaited
    | ready | asking | waiting | finished | abandoned =>
      rw [at_] at leaving
      cases leaving

theorem Worked.passed (w : Worked none s s') (queue : s'.commands = s.commands ++ given) :
    Passed none s s' := by
  refine ⟨w, ?_, ?_⟩
  · intro id mem
    rw [queue]
    exact .inl (List.mem_append_left _ mem)
  · intro id none
    cases none

/-- A call that goes on owns what it has owned, and gives up a request when it stops waiting
for it. -/
theorem Owned.turned (h : s.Owned n c) (table : s.Tabled) (turn : Turn s n c stage given)
    (worked : Worked none s s') (queue : s'.commands = s.commands ++ given) :
    s'.Owned n { c with stage := stage } := by
  have passed := worked.passed queue
  have ended : ∀ id, s'.completion? id = s.completion? id := by
    intro id
    simpa using worked.completion id
  refine ⟨?_, ?_, ?_, ?_, ?_, ?_⟩
  · have rested : s.commands.filter (Command.isFrom n) = [] := turn.rested h.asks
    rw [asksOf, queue, List.filter_append, rested, List.nil_append]
    exact turn.asks_given
  · intro fresh
    exact h.fresh (turn.fresh fresh)
  · intro id number
    have issued := h.issued id number
    have next := worked.next
    omega
  · intro id number
    exact worked.held (h.issued id number) (h.held id number)
  · intro id awaited
    obtain ⟨was, nothing⟩ := turn.awaited awaited
    rw [queue, nothing, List.append_nil, ended]
    exact h.awaited id was
  · intro id number unawaited _
    have issued := h.issued id number
    -- The call has not waited before, or it has stopped waiting with this turn.
    cases before : c.stage.awaited with
    | none => exact passed.spent issued (h.spent id number before turn.under_way.1)
    | some k =>
      obtain ⟨mine, -, -⟩ := h.awaited k before
      obtain rfl : k = id := Option.some.inj (mine.symm.trans number)
      rcases turn.settles before unawaited with beyond | cancelled
      · refine passed.spent issued (.inl fun mem => ?_)
        simp [table.pending k mem] at beyond
      · refine .inr ?_
        rw [queue]
        exact List.mem_append_right _ cancelled

theorem Accounted.resume (h : s.Accounted) (n : Nat) : (s.resume n).1.Accounted := by
  cases hc : s.call? n with
  | none =>
    rw [Session.resume, hc]
    exact h
  | some c =>
    rcases turned_resume hc with ⟨idle, -⟩ | ⟨stage, given, turn, turned⟩
    · rw [idle]
      exact h
    have byCall := byCall_resume s n
    generalize s.resume n = moved at turned byCall
    have worked := byCall.worked h.table.numbered
    obtain ⟨f, -, calls⟩ := byCall.calls
    have old := h.owned n c hc
    have queue := turned.commands
    refine h.change hc (d := { c with stage := stage }) ?_ (worked.passed queue) ?_ ?_ (.inl rfl)
      (old.turned h.table turn worked queue)
    · intro m
      by_cases same : m = n
      · rw [if_pos same, same]
        exact turned.call
      · rw [calls, if_neg same, if_neg same]
    · intro m other
      rw [asksOf, queue, List.filter_append, turn.filter_isFrom other, List.append_nil, asksOf]
    · intro id mem
      rw [queue, List.mem_append] at mem
      rcases mem with was | now
      · exact .inl was
      · exact .inr (old.awaited id (turn.cancel_mem now)).1

/-! ## Answers -/

theorem Owned.asked {topic : Topic} {what : Ask} {rest : List Command} (h : s.Owned n c)
    (queue : s.commands = .ask n topic what :: rest) :
    c.stage = .abandoned ∨ c.stage = .asking topic ∧ rest.filter (Command.isFrom n) = [] ∧
      (topic = .exit → what = .exit) ∧
      (topic = .main → ∃ phase, c.goal.opening phase = .ask what) := by
  have asks := h.asks
  have own : s.asksOf n = .ask n topic what :: rest.filter (Command.isFrom n) := by
    simp [asksOf, queue, Command.isFrom]
  rw [own] at asks
  unfold Call.Asks at asks
  cases at_ : c.stage with
  | asking t =>
    rw [at_] at asks
    cases t with
    | main =>
      obtain ⟨asked, same, opens⟩ := asks
      simp only [List.cons.injEq, Command.ask.injEq, true_and] at same
      obtain ⟨⟨rfl, rfl⟩, nothing⟩ := same
      exact .inr ⟨rfl, nothing, by simp, fun _ => opens⟩
    | exit =>
      simp only [List.cons.injEq, Command.ask.injEq, true_and] at asks
      obtain ⟨⟨rfl, rfl⟩, nothing⟩ := asks
      exact .inr ⟨rfl, nothing, fun _ => rfl, by simp⟩
  | abandoned => exact .inl rfl
  | answered topic =>
    rw [at_] at asks
    cases topic <;> cases asks
  | ready | waiting | exiting | killed | finished =>
    rw [at_] at asks
    cases asks

theorem call?_answer (s : Session) (n m : Nat) (topic : Topic) (a : Answer) :
    (s.answer n topic a).call? m = if m = n then
      (s.call? m).map fun c => if c.stage = .asking topic then c.answered topic a else c
    else s.call? m := by
  rw [answer, call?_updateCall]
  congr 2
  funext c
  rcases a with e | _ | id <;> rfl

theorem passed_asked {topic : Topic} {what : Ask}
    (queue : s.commands = .ask n topic what :: s'.commands)
    (worked : Worked (some what.operation) s s') : Passed (some what.operation) s s' := by
  refine ⟨worked, ?_, ?_⟩
  · intro id mem
    rw [queue] at mem
    exact .inl (by simpa using mem)
  · intro id cancels
    cases what <;> cases cancels

/-- An answer without a number leaves the call what it has owned. -/
theorem Owned.declined {topic : Topic} {a : Answer} (h : s.Owned n c) (p : Passed op s s')
    (asking : c.stage = .asking topic) (nothing : s'.asksOf n = []) (none : a.number? = none) :
    s'.Owned n (c.answered topic a) := by
  have number : (c.answered topic a).number = c.number := by
    rw [Call.answered, none, Option.none_or]
  have before : c.stage.awaited = Option.none := by
    rw [asking]
    rfl
  have present : c.stage ≠ .abandoned := by
    rw [asking]
    simp
  have unawaited : (c.answered topic a).stage.awaited = Option.none := by
    rcases a with e | _ | id
    · cases topic <;> rfl
    · cases topic <;> rfl
    · cases none
  refine ⟨nothing, ?_, ?_, ?_, ?_, ?_⟩
  · intro fresh
    cases topic with
    | main => exact number.trans (h.fresh (by rw [asking]; rfl))
    | exit => cases fresh
  · intro id mine
    have issued := h.issued id (number ▸ mine)
    have next := p.worked.next
    omega
  · intro id mine
    exact p.worked.held (h.issued id (number ▸ mine)) (h.held id (number ▸ mine))
  · intro id awaited
    rw [unawaited] at awaited
    cases awaited
  · intro id mine _ _
    exact p.spent (h.issued id (number ▸ mine)) (h.spent id (number ▸ mine) before present)

/-- The number of a request that was sent is the next one, and nobody has given it up. -/
theorem owned_granted (table : s'.Tabled) (cancels : ∀ id, .cancel id ∈ s'.commands →
      id < s.dispatcher.nextId) (nothing : s'.asksOf n = [])
    (next : s'.dispatcher.nextId = s.dispatcher.nextId + 1)
    (mem : s.dispatcher.nextId ∈ s'.dispatcher.pending) :
    s'.Owned n (c.answered .main (.ok (some s.dispatcher.nextId))) := by
  refine ⟨nothing, ?_, ?_, ?_, ?_, ?_⟩
  · intro fresh
    cases fresh
  · intro id number
    have same := Option.some.inj number
    omega
  · intro id number
    cases number
    exact .inl mem
  · intro id awaited
    cases awaited
    refine ⟨rfl, ?_, ?_⟩
    · intro cancelled
      exact absurd (cancels _ cancelled) (Int.lt_irrefl _)
    · rw [table.pending _ mem]
      simp
  · intro id _ unawaited
    cases unawaited

theorem Accounted.asked {topic : Topic} {what : Ask} (h : s.Accounted)
    (queue : s.commands = .ask n topic what :: s'.commands)
    (carried : Carried s s' n topic what) : s'.Accounted := by
  have passed := passed_asked queue carried.worked
  obtain ⟨a, calls, result⟩ := carried.answered
  have own : s.asksOf n = .ask n topic what :: s'.asksOf n := by
    simp [asksOf, queue, Command.isFrom]
  have others : ∀ m ≠ n, s'.asksOf m = s.asksOf m := by
    intro m other
    simp [asksOf, queue, Command.isFrom, Ne.symm other]
  have cancels : ∀ id, .cancel id ∈ s'.commands → .cancel id ∈ s.commands := by
    intro id mem
    rw [queue]
    exact List.mem_cons_of_mem _ mem
  cases hc : s.call? n with
  | none =>
    rw [h.absent n hc] at own
    cases own
  | some c =>
    have old := h.owned n c hc
    have looked : ∀ {d : Call}, (if c.stage = .asking topic then c.answered topic a else c) = d →
        ∀ m, s'.call? m = if m = n then some d else s.call? m := by
      rintro d rfl m
      have found : s'.call? m = (s.answer n topic a).call? m := by
        rw [call?, calls, call?]
      rw [found, call?_answer]
      by_cases same : m = n
      · rw [if_pos same, if_pos same, same, hc, Option.map_some]
      · rw [if_neg same, if_neg same]
    have becomes : ∀ {d : Call},
        (if c.stage = .asking topic then c.answered topic a else c) = d →
        (d.number = c.number ∨ d.number = some s.dispatcher.nextId) → s'.Owned n d →
        s'.Accounted := by
      intro d is number owned
      exact h.change hc (looked is) passed others (fun id mem => .inl (cancels id mem)) number owned
    rcases old.asked queue with gone | ⟨asking, nothing, exits, -⟩
    · -- The answer to a caller that has gone away is lost.
      exact becomes (by simp [gone]) (.inl rfl) (old.gone carried.worked gone rfl)
    rcases result with ⟨method, params, is, rfl, next, mem, -⟩ | ⟨e, rfl, -⟩ | ⟨rfl, -⟩
    · cases topic with
      | main =>
        refine becomes (if_pos asking) (.inr rfl) ?_
        exact owned_granted (h.table.worked carried.worked)
          (fun id cancelled => h.cancels id (cancels id cancelled)) nothing next mem
      | exit =>
        rw [exits rfl] at is
        cases is
    · exact becomes (if_pos asking) (.inl rfl) (old.declined passed asking nothing rfl)
    · exact becomes (if_pos asking) (.inl rfl) (old.declined passed asking nothing rfl)

/-! ## Runs -/

theorem call?_begin_or (s : Session) (n m : Nat) (goal : Goal) :
    (s.begin n goal).call? m = (s.call? m).or (if m = n then some (.start goal) else none) := by
  cases hm : s.call? m with
  | none =>
    have absent : s.calls.find? (·.1 = m) = none := by simpa [call?] using hm
    by_cases same : m = n
    · rw [call?, begin, List.find?_append, absent]
      simp [same]
    · rw [call?, begin, List.find?_append, absent]
      simp [same, Ne.symm same]
  | some c =>
    obtain ⟨e, he, found⟩ := Option.map_eq_some_iff.mp hm
    rw [call?, begin, List.find?_append, he]
    simp [found]

theorem Accounted.begun (h : s.Accounted) (n : Nat) (goal : Goal) : (s.begin n goal).Accounted := by
  have worked : Worked none s (s.begin n goal) := .of_same h.table.numbered rfl rfl rfl rfl
  have same : ∀ m c, (s.begin n goal).call? m = some c →
      s.call? m = some c ∨ s.call? m = none ∧ c = .start goal := by
    intro m c found
    rw [call?_begin_or] at found
    cases hm : s.call? m with
    | none =>
      rw [hm] at found
      simp only [Option.none_or] at found
      split at found
      · exact .inr ⟨rfl, (Option.some.inj found).symm⟩
      · cases found
    | some d =>
      rw [hm] at found
      exact .inl found
  refine ⟨h.table.worked worked, h.cancels, ?_, ?_, ?_⟩
  · intro m none
    rw [call?_begin_or] at none
    exact h.absent m (Option.or_eq_none_iff.mp none).1
  · intro m c found
    rcases same m c found with was | ⟨new, rfl⟩
    · have old := h.owned m c was
      exact ⟨old.asks, old.fresh, old.issued, old.held, old.awaited, old.spent⟩
    · refine ⟨h.absent m new, fun _ => rfl, ?_, ?_, ?_, ?_⟩
      · intro id number
        cases number
      · intro id number
        cases number
      · intro id awaited
        cases awaited
      · intro id number
        cases number
  · intro m k c d id hc hd hid hid'
    rcases same m c hc with was | ⟨-, rfl⟩
    · rcases same k d hd with was' | ⟨-, rfl⟩
      · exact h.distinct m k c d id was was' hid hid'
      · cases hid'
    · cases hid

/-- A caller that goes away leaves a result that is there. -/
theorem call?_abandon (s : Session) (n m : Nat) :
    (s.abandon n).call? m = if m = n then
      (s.call? m).map fun c =>
        if c.result?.isSome then c else { c with stage := .abandoned }
    else s.call? m := by
  rw [abandon, call?_updateCall]
  congr 2
  funext c
  obtain ⟨goal, stage, number⟩ := c
  cases stage <;> rfl

theorem Accounted.abandoned (h : s.Accounted) (n : Nat) : (s.abandon n).Accounted := by
  have worked : Worked none s (s.abandon n) := .of_same h.table.numbered rfl rfl rfl rfl
  have passed : Passed none s (s.abandon n) := ⟨worked, fun _ mem => .inl mem, by simp⟩
  cases hc : s.call? n with
  | none =>
    have same : ∀ m, (s.abandon n).call? m = s.call? m := by
      intro m
      rw [call?_abandon]
      split
      · rename_i here
        rw [here, hc, Option.map_none]
      · rfl
    refine ⟨h.table.worked worked, h.cancels, ?_, ?_, ?_⟩
    · intro m none
      exact h.absent m (same m ▸ none)
    · intro m c found
      have old := h.owned m c (same m ▸ found)
      exact ⟨old.asks, old.fresh, old.issued, old.held, old.awaited, old.spent⟩
    · intro m k c d id hm hk
      rw [same] at hm hk
      exact h.distinct m k c d id hm hk
  | some c =>
    have old := h.owned n c hc
    have calls : ∀ m, (s.abandon n).call? m = if m = n then
        some (if c.result?.isSome then c else { c with stage := .abandoned }) else s.call? m := by
      intro m
      rw [call?_abandon]
      by_cases same : m = n
      · rw [if_pos same, if_pos same, same, hc, Option.map_some]
      · rw [if_neg same, if_neg same]
    refine h.change hc calls passed (fun _ _ => rfl) (fun _ mem => .inl mem) (.inl ?_) ?_
    · split <;> rfl
    · split
      · exact ⟨old.asks, old.fresh, old.issued, old.held, old.awaited, old.spent⟩
      · exact old.gone worked rfl rfl

theorem Accounted.undergo (h : s.Accounted) (d : Deed) : (s.undergo d).1.Accounted := by
  have happened := happened h.table.numbered d
  generalize (s.undergo d).1 = s' at happened ⊢
  cases happened with
  | resumed n => exact h.resume n
  | asked queue carried => exact h.asked queue carried
  | aside calls worked _ queue => exact h.aside calls worked queue
  | begun n goal => exact h.begun n goal
  | abandoned n => exact h.abandoned n

theorem Accounted.through (h : s.Accounted) (deeds : List Deed) : (s.through deeds).Accounted := by
  induction deeds generalizing s with
  | nil => exact h
  | cons d deeds ih => exact ih (h.undergo d)

end Session

end LanguageClient
