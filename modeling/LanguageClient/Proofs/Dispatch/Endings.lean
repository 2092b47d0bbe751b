import LanguageClient.Proofs.Dispatch.Pending

/-!
# How requests end

Over a whole history of a dispatcher a request ends at most once, and the first
operation that can end it decides how.  Until then its number is pending, and the table
of pending numbers holds nothing else.  A caller is handed the ending unless it has
stopped waiting before.
-/

set_option autoImplicit false

namespace LanguageClient.Dispatcher

variable {H : Type}

/-- Whether the caller of the request with a number stops waiting for it. -/
def Op.forgets (id : Int) : Op H → Bool
  | .forget n => id == n
  | _ => false

namespace Attended

/-- The completions of the request with a number among the entries of a history. -/
def firings (id : Int) (entries : List (Entry H)) : List Completion :=
  entries.flatMap fun e => completionsOf id e.effects

/-- What the caller of the request with a number is handed in a history. -/
def handed (id : Int) : Attended H → List (Op H) → List Completion
  | _, [] => []
  | s, op :: ops =>
    ((s.delivered (s.step op).2.effects).filter (·.1 = id)).map Prod.snd ++
      handed id (s.step op).1 ops

/-- In a history from the start a request got a number, and `after` came later. -/
def Issued (history : List (Op H)) (id : Int) (after : List (Op H)) : Prop :=
  ∃ before method params, history = before ++ .request method params :: after ∧
    ((start.run before).step (.request method params)).2.reply = .issued id

/-! ## Histories in two parts -/

@[simp] theorem run_nil (s : Attended H) : s.run [] = s := rfl

@[simp] theorem run_cons (s : Attended H) (op : Op H) (ops : List (Op H)) :
    s.run (op :: ops) = (s.step op).1.run ops := rfl

theorem run_append (s : Attended H) (xs ys : List (Op H)) :
    s.run (xs ++ ys) = (s.run xs).run ys := List.foldl_append

theorem entries_append (s : Attended H) (xs ys : List (Op H)) :
    s.entries (xs ++ ys) = s.entries xs ++ (s.run xs).entries ys := by
  induction xs generalizing s with
  | nil => rfl
  | cons op xs ih => simp [entries, ih]

theorem handed_append (id : Int) (s : Attended H) (xs ys : List (Op H)) :
    s.handed id (xs ++ ys) = s.handed id xs ++ (s.run xs).handed id ys := by
  induction xs generalizing s with
  | nil => rfl
  | cons op xs ih => simp [handed, ih]

/-! ## Waiting callers -/

/-- Callers wait for pending requests only. -/
structure Tended (s : Attended H) : Prop where
  numbered : s.dispatcher.Numbered
  pending : ∀ id ∈ s.awaited, id ∈ s.dispatcher.pending

theorem tended_start : (start : Attended H).Tended :=
  ⟨numbered_empty, by simp [start]⟩

/-- A request gets the next number, for which its caller then waits. -/
theorem step_issued {s : Attended H} {method : String} {params : Json} {id : Int}
    (h : (s.step (.request method params)).2.reply = .issued id) :
    id = s.dispatcher.nextId ∧
      (s.step (.request method params)).1.dispatcher.nextId = id + 1 ∧
      (s.step (.request method params)).1.dispatcher.pending = s.dispatcher.pending ++ [id] ∧
      (s.step (.request method params)).1.awaited = s.awaited ++ [id] ∧
      (s.step (.request method params)).2.effects = [.sent (.request id method params)] := by
  by_cases hc : s.dispatcher.closed = true
  · simp [step, Dispatcher.request, hc, advance] at h
  by_cases hw : s.dispatcher.writable = true
  · simp only [step, Dispatcher.request, hc, hw, advance, if_true, Bool.false_eq_true, if_false,
      Reply.issued.injEq] at h
    subst h
    simp [step, Dispatcher.request, hc, hw, advance, completedIds]
  · simp [step, Dispatcher.request, hc, hw, advance] at h

/-- What is delivered to the caller of one request. -/
theorem delivered_filter (s : Attended H) (id : Int) (effects : List (Effect H)) :
    ((s.delivered effects).filter (·.1 = id)).map Prod.snd =
      if id ∈ s.awaited then completionsOf id effects else [] := by
  induction effects with
  | nil => simp [delivered]
  | cons e effects ih =>
    unfold delivered at ih ⊢
    cases e with
    | completed n c =>
      by_cases hid : n = id
      · subst hid
        by_cases hn : n ∈ s.awaited <;> simp [hn, Effect.completion?] at ih ⊢ <;> exact ih
      · by_cases hn : n ∈ s.awaited <;> simp [hn, hid, Effect.completion?] at ih ⊢ <;> exact ih
    | sent | called | logged => simpa [Effect.completion?] using ih

/-- A request is among the completed ones exactly when it has completions. -/
theorem mem_completedIds (id : Int) (effects : List (Effect H)) :
    id ∈ completedIds effects ↔ completionsOf id effects ≠ [] := by
  induction effects with
  | nil => simp [completedIds]
  | cons e effects ih =>
    unfold completedIds at ih ⊢
    cases e with
    | completed n c =>
      by_cases hid : n = id
      · simp [hid, Effect.completion?]
      · simp only [List.filterMap_cons, List.mem_cons, Ne.symm hid, false_or, ih,
          completionsOf_cons, Effect.completion?, hid, if_false, Option.toList_none,
          List.nil_append]
    | sent | called | logged => simpa [Effect.completion?] using ih

/-- The caller of a request waits until it ends or the caller goes away. -/
theorem mem_awaited_step {s : Attended H} {id : Int} (old : id < s.dispatcher.nextId)
    (op : Op H) :
    id ∈ (s.step op).1.awaited ↔
      id ∈ s.awaited ∧ completionsOf id (s.step op).2.effects = [] ∧ op.forgets id = false := by
  cases op with
  | request method params =>
    by_cases hc : s.dispatcher.closed = true
    · simp [step, Dispatcher.request, hc, advance, completedIds, Op.forgets]
    by_cases hw : s.dispatcher.writable = true
    · have hne : id ≠ s.dispatcher.nextId := by omega
      simp [step, Dispatcher.request, hc, hw, advance, completedIds, Op.forgets, hne,
        Effect.completion?]
    · simp [step, Dispatcher.request, hc, hw, advance, completedIds, Op.forgets]
  | dropWriter => simp [step, Op.forgets]
  | forget n => simp [step, Op.forgets]
  | notify | subscribe | receive | cancel | close | failAll =>
    simp [step, advance, mem_completedIds, Op.forgets]

/-- Callers begin to wait for their own requests only. -/
theorem awaited_step_subset {s : Attended H} {id : Int} {op : Op H}
    (h : id ∈ (s.step op).1.awaited) :
    id ∈ s.awaited ∨
      ∃ method params, op = .request method params ∧ (s.step op).2.reply = .issued id := by
  cases op with
  | request method params =>
    simp only [step] at h ⊢
    split at h
    · rename_i n hn
      have h := (List.mem_filter.mp h).1
      simp only [List.mem_append, List.mem_singleton] at h
      rcases h with h | rfl
      · exact .inl h
      · exact .inr ⟨method, params, rfl, by simp [advance]⟩
    · exact .inl ((List.mem_filter.mp h).1)
  | dropWriter => exact .inl h
  | forget n => exact .inl ((List.mem_filter.mp h).1)
  | notify | subscribe | receive | cancel | close | failAll =>
    exact .inl ((List.mem_filter.mp h).1)

/-- Every operation leaves only callers of pending requests waiting. -/
theorem tended_step {s : Attended H} (h : s.Tended) (op : Op H) : (s.step op).1.Tended := by
  have table := s.tableStep op
  refine ⟨table.numbered h.numbered, fun id hid => ?_⟩
  rcases awaited_step_subset hid with hs | ⟨method, params, rfl, issued⟩
  · have hp := h.pending id hs
    have old := h.numbered.lt_nextId id hp
    obtain ⟨-, hc, -⟩ := (mem_awaited_step old op).mp hid
    rw [table.completionsOf_eq h.numbered, if_pos hp] at hc
    exact (table.mem_pending_iff h.numbered old).mpr ⟨hp, by simpa using hc⟩
  · obtain ⟨-, -, pending, -⟩ := step_issued issued
    simp [pending]

theorem tended_run {s : Attended H} (h : s.Tended) (ops : List (Op H)) : (s.run ops).Tended := by
  induction ops generalizing s with
  | nil => exact h
  | cons op ops ih => exact ih (tended_step h op)

theorem nextId_le_run (s : Attended H) (ops : List (Op H)) :
    s.dispatcher.nextId ≤ (s.run ops).dispatcher.nextId := by
  induction ops generalizing s with
  | nil => exact Int.le_refl _
  | cons op ops ih => exact Int.le_trans (s.tableStep op).nextId_le (ih _)

/-! ## One request over a run -/

/-- From any moment on a pending request fires once, as the first operation to end it
says, and one that is not pending never fires. -/
theorem firings_entries {s : Attended H} (h : s.Tended) (id : Int) (old : id < s.dispatcher.nextId)
    (ops : List (Op H)) :
    firings id (s.entries ops) =
      if id ∈ s.dispatcher.pending then (ops.findSome? (Op.ending? id)).toList else [] := by
  induction ops generalizing s with
  | nil => simp [firings, entries]
  | cons op ops ih =>
    have table := s.tableStep op
    have ih := ih (tended_step h op) (Int.lt_of_lt_of_le old table.nextId_le)
    have now := table.completionsOf_eq h.numbered id
    have after := table.mem_pending_iff h.numbered old
    simp only [firings, entries, List.flatMap_cons] at ih ⊢
    rw [now, ih]
    by_cases hp : id ∈ s.dispatcher.pending
    · cases he : op.ending? id <;> simp [hp, after, he]
    · simp [hp, after]

/-- A number that has been handed out is pending as long as no operation has ended its
request, and never again. -/
theorem mem_pending_run {s : Attended H} (h : s.Tended) {id : Int} (old : id < s.dispatcher.nextId)
    (ops : List (Op H)) :
    id ∈ (s.run ops).dispatcher.pending ↔
      id ∈ s.dispatcher.pending ∧ ops.findSome? (Op.ending? id) = none := by
  induction ops generalizing s with
  | nil => simp
  | cons op ops ih =>
    have table := s.tableStep op
    rw [run_cons, ih (tended_step h op) (Int.lt_of_lt_of_le old table.nextId_le),
      table.mem_pending_iff h.numbered old]
    cases he : op.ending? id <;> simp [he]

/-- The caller of a request is handed its ending unless it has gone away before. -/
theorem handed_eq {s : Attended H} (h : s.Tended) (id : Int) (old : id < s.dispatcher.nextId)
    (ops : List (Op H)) :
    s.handed id ops =
      if id ∈ s.awaited then
        ((ops.takeWhile fun op => !op.forgets id).findSome? (Op.ending? id)).toList
      else [] := by
  induction ops generalizing s with
  | nil => simp [handed]
  | cons op ops ih =>
    have table := s.tableStep op
    have ih := ih (tended_step h op) (Int.lt_of_lt_of_le old table.nextId_le)
    have now := table.completionsOf_eq h.numbered id
    have after := mem_awaited_step old op
    rw [handed, delivered_filter, ih, now]
    by_cases ha : id ∈ s.awaited
    · have hp := h.pending id ha
      rw [now, if_pos hp] at after
      cases hf : op.forgets id with
      | true =>
        have quiet : op.ending? id = none := by
          cases op <;> first | rfl | simp [Op.forgets] at hf
        simp [hp, after, hf, quiet]
      | false => cases he : op.ending? id <;> simp [ha, hp, after, hf, he]
    · simp [ha, after]

/-- A number that has not been handed out yet does not fire. -/
theorem firings_of_le {s : Attended H} (h : s.Tended) {id : Int} (ops : List (Op H))
    (new : (s.run ops).dispatcher.nextId ≤ id) : firings id (s.entries ops) = [] := by
  induction ops generalizing s with
  | nil => rfl
  | cons op ops ih =>
    have ih := ih (tended_step h op) new
    have later := nextId_le_run s (op :: ops)
    have absent : id ∉ s.dispatcher.pending := fun hp => by
      have := h.numbered.lt_nextId id hp
      omega
    simp only [firings, entries, List.flatMap_cons] at ih ⊢
    rw [ih, (s.tableStep op).completionsOf_eq h.numbered, if_neg absent, List.append_nil]

/-- A caller is handed no more than what fires. -/
theorem handed_eq_nil {s : Attended H} {id : Int} (ops : List (Op H))
    (h : firings id (s.entries ops) = []) : s.handed id ops = [] := by
  induction ops generalizing s with
  | nil => rfl
  | cons op ops ih =>
    simp only [firings, entries, List.flatMap_cons, List.append_eq_nil_iff] at h
    rw [handed, delivered_filter, h.1, ih h.2]
    simp

/-! ## Whole histories -/

/-- A request that got a number is pending right after that, its caller waits, and
nothing has fired under its number. -/
theorem Issued.split {history after : List (Op H)} {id : Int} (h : Issued history id after) :
    ∃ before, history = before ++ after ∧ firings id (start.entries before) = [] ∧
      id ∈ (start.run before).dispatcher.pending ∧ id ∈ (start.run before).awaited := by
  obtain ⟨before, method, params, rfl, issued⟩ := h
  obtain ⟨fresh, -, pending, awaited, effects⟩ := step_issued issued
  refine ⟨before ++ [.request method params], by simp, ?_, ?_, ?_⟩
  · have silent := firings_of_le tended_start before (Int.le_of_eq fresh.symm)
    unfold firings at silent ⊢
    simp [entries_append, entries, silent, effects, Effect.completion?]
  · simp [run_append, pending]
  · simp [run_append, awaited]

/-- A number that is pending after a run was pending before it or has come with a request
of the run, and nothing has ended its request since. -/
theorem exists_request_of_mem_pending {s : Attended H} (h : s.Tended) {id : Int}
    {ops : List (Op H)} (pending : id ∈ (s.run ops).dispatcher.pending) :
    id ∈ s.dispatcher.pending ∨
      ∃ before method params after, ops = before ++ .request method params :: after ∧
        ((s.run before).step (.request method params)).2.reply = .issued id ∧
        after.findSome? (Op.ending? id) = none := by
  induction ops generalizing s with
  | nil => exact .inl pending
  | cons op ops ih =>
    have next := tended_step h op
    -- Either the number is pending after the first operation, which then issued it or
    -- found it, or a later operation issued it.
    rcases ih next pending with now | ⟨before, method, params, after, rfl, issued, spared⟩
    · rcases (s.tableStep op).mem_pending_cases now with hs | ⟨method, params, rfl, issued⟩
      · exact .inl hs
      · have old := next.numbered.lt_nextId id now
        have spared := ((mem_pending_run next old ops).mp pending).2
        exact .inr ⟨[], method, params, ops, rfl, issued, spared⟩
    · exact .inr ⟨op :: before, method, params, after, rfl, issued, spared⟩

/-- The pending numbers are those of requests that nothing has ended. -/
theorem mem_pending_iff_issued (history : List (Op H)) (id : Int) :
    id ∈ (start.run history).dispatcher.pending ↔
      ∃ after, Issued history id after ∧ after.findSome? (Op.ending? id) = none := by
  constructor
  · intro pending
    rcases exists_request_of_mem_pending tended_start pending with
      none | ⟨before, method, params, after, split, issued, spared⟩
    · simp [start, empty] at none
    · exact ⟨after, ⟨before, method, params, split, issued⟩, spared⟩
  · rintro ⟨after, issued, spared⟩
    obtain ⟨before, rfl, -, pending, -⟩ := issued.split
    have tended := tended_run tended_start before
    rw [run_append]
    exact (mem_pending_run tended (tended.numbered.lt_nextId id pending) after).mpr
      ⟨pending, spared⟩

/-- A message that answers no pending request changes nothing and completes nothing. -/
theorem step_receive_of_not_answering (s : Attended H) (m : Message)
    (h : ∀ id outcome, m = .response id outcome → id ∉ s.dispatcher.pending) :
    (s.step (.receive m)).1 = s ∧ completedIds (s.step (.receive m)).2.effects = [] := by
  have outcome : (s.dispatcher.receive m).next = s.dispatcher ∧
      completedIds (s.dispatcher.receive m).effects = [] := by
    cases m with
    | response n outcome => simp [Dispatcher.receive, h n outcome rfl, completedIds]
    | notification method params =>
      cases hm : s.dispatcher.handler? method <;> simp [Dispatcher.receive, hm, completedIds]
    | request n method params => simp [Dispatcher.receive, completedIds]
  have waiting : s.awaited.filter (· ∉ completedIds (s.dispatcher.receive m).effects) =
      s.awaited := by simp [outcome.2]
  exact ⟨by simp only [step, advance, outcome.1, waiting], outcome.2⟩

/-- The first operation that can end a request decides how it ends, once and for all.

In every history from the start and for every number that a request got in it, the
completion of the request fires as the first later operation says that can end it, and
only then; its caller is handed that unless it has gone away before.  The table of
pending numbers holds each number once whose request nothing has ended, and no other;
and a message that answers no pending request, be it a notification, a request of the
server, or a response to something else, leaves everything as it is. -/
theorem first_ending_decides (history : List (Op H)) (id : Int) :
    (∀ after, Issued history id after →
      firings id (start.entries history) = (after.findSome? (Op.ending? id)).toList ∧
      start.handed id history =
        ((after.takeWhile fun op => !op.forgets id).findSome? (Op.ending? id)).toList) ∧
    (id ∈ (start.run history).dispatcher.pending ↔
      ∃ after, Issued history id after ∧ after.findSome? (Op.ending? id) = none) ∧
    (start.run history).dispatcher.pending.Nodup ∧
    (∀ m, (∀ n outcome, m = .response n outcome →
        n ∉ (start.run history).dispatcher.pending) →
      ((start.run history).step (.receive m)).1 = start.run history ∧
      completedIds ((start.run history).step (.receive m)).2.effects = []) := by
  refine ⟨?_, mem_pending_iff_issued history id,
    (tended_run tended_start history).numbered.nodup,
    step_receive_of_not_answering (start.run history)⟩
  intro after issued
  obtain ⟨before, rfl, silent, pending, awaited⟩ := issued.split
  have tended := tended_run tended_start before
  have old := tended.numbered.lt_nextId id pending
  constructor
  · have later := firings_entries tended id old after
    unfold firings at silent later ⊢
    rw [entries_append, List.flatMap_append, silent, later, if_pos pending, List.nil_append]
  · rw [handed_append, handed_eq_nil before silent, handed_eq tended id old, if_pos awaited,
      List.nil_append]

/-- Of a response, a second response and a cancellation the first one counts. -/
theorem first_ending_decides_twice_answered :
    let after : List (Op Unit) :=
      [.notify "a" .null, .receive (.response 1 (.ok (.int 7))),
        .receive (.response 1 (.error ⟨0, "late", none⟩)), .cancel 1, .close]
    Issued (.request "a" .null :: after) 1 after ∧
      firings 1 (start.entries (.request "a" .null :: after)) = [.success (.int 7)] := by
  intro after
  have issued : Issued (.request "a" .null :: after) 1 after := ⟨[], "a", .null, rfl, rfl⟩
  exact ⟨issued, ((first_ending_decides _ 1).1 after issued).1⟩

end Attended

end LanguageClient.Dispatcher
