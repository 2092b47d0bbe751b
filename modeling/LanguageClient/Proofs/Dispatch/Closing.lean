import LanguageClient.Proofs.Dispatch.Handlers
import LanguageClient.Proofs.Dispatch.Outbound

/-!
# A closed dispatcher

A dispatcher is closed by closing it, or by a call whose message nobody takes; ending all
requests does not close it.  Once closed it refuses every call for good, while what is
pending still ends as before and notifications are still heard.
-/

set_option autoImplicit false

namespace LanguageClient.Dispatcher

variable {H : Type}

/-- Whether an operation has something to send. -/
def Op.isCall : Op H → Bool
  | .request .. | .notify .. => true
  | _ => false

namespace Attended

/-! ## How it closes -/

/-- What is no call uses up no number, and closes the dispatcher only if it is to. -/
theorem step_of_not_call (s : Attended H) {op : Op H} (h : op.isCall = false) :
    (s.step op).1.dispatcher.nextId = s.dispatcher.nextId ∧
      ((s.step op).1.dispatcher.closed = true ↔ op = .close ∨ s.dispatcher.closed = true) := by
  cases op with
  | request | notify => cases h
  | subscribe method handler =>
    simp only [step, advance, Dispatcher.subscribe]
    split <;> simp
  | receive message =>
    cases message with
    | response n outcome =>
      simp only [step, advance, Dispatcher.receive]
      split <;> simp
    | notification method params =>
      simp only [step, advance, Dispatcher.receive]
      split <;> simp
    | request n method params => simp [step, advance, Dispatcher.receive]
  | cancel n =>
    simp only [step, advance, Dispatcher.cancel]
    split <;> simp
  | close => simp [step, advance, Dispatcher.close, Dispatcher.failAll]
  | failAll => simp [step, advance, Dispatcher.failAll]
  | dropWriter => simp [step, Dispatcher.dropWriter]
  | forget n => simp [step]

/-- An open dispatcher is closed by being told so, or by a call that nobody hears. -/
theorem closed_step_iff {s : Attended H} (opened : s.dispatcher.closed = false) (op : Op H) :
    (s.step op).1.dispatcher.closed = true ↔
      op = .close ∨ op.isCall = true ∧ s.dispatcher.writable = false := by
  cases call : op.isCall with
  | false =>
    rw [(s.step_of_not_call call).2]
    simp [opened]
  | true =>
    cases op with
    | request | notify =>
      cases writable : s.dispatcher.writable <;>
        simp [step, advance, Dispatcher.request, Dispatcher.notify, opened, writable]
    | subscribe | receive | cancel | close | failAll | dropWriter | forget => cases call

/-- A call that nobody hears leaves the table as it is. -/
theorem pending_step_unheard {s : Attended H} {op : Op H} (call : op.isCall = true)
    (unheard : s.dispatcher.writable = false) :
    (s.step op).1.dispatcher.pending = s.dispatcher.pending := by
  cases op with
  | request | notify =>
    cases closed : s.dispatcher.closed <;>
      simp [step, advance, Dispatcher.request, Dispatcher.notify, unheard, closed]
  | subscribe | receive | cancel | close | failAll | dropWriter | forget => cases call

/-! ## What a closed one does -/

/-- What an operation can do on a closed dispatcher: it is refused if it is a call, and
otherwise it may still take numbers out of the table. -/
structure Shut (op : Op H) (s s' : Attended H) (e : Entry H) : Prop where
  closed : s'.dispatcher.closed = true
  next : s'.dispatcher.nextId = s.dispatcher.nextId
  table : s'.dispatcher.pending.Sublist s.dispatcher.pending
  unsent : sentBy e.effects = []
  refused : op.isCall = true → s' = s ∧ e = ⟨.refused .sessionTerminated, []⟩

theorem shut_step {s : Attended H} (closed : s.dispatcher.closed = true) (op : Op H) :
    Shut op s (s.step op).1 (s.step op).2 := by
  have called (call : op.isCall = true) :
      s.step op = (s, ⟨.refused .sessionTerminated, []⟩) := by
    cases op with
    | request method params =>
      simp only [step, Dispatcher.request, closed, if_true]
      exact advance_of_silent s _ rfl rfl
    | notify method params =>
      simp only [step, Dispatcher.notify, closed, if_true]
      exact advance_of_silent s _ rfl rfl
    | subscribe | receive | cancel | close | failAll | dropWriter | forget => cases call
  refine ⟨closed_step closed op, ?_, ?_, ?_, fun call => by rw [called call]; exact ⟨rfl, rfl⟩⟩
  · cases call : op.isCall with
    | true => rw [called call]
    | false => exact (s.step_of_not_call call).1
  · cases call : op.isCall with
    | true => simp [called call]
    | false =>
      cases s.tableStep op with
      | kept _ same => simp [same]
      | issued _ _ _ _ asked => simp [asked, Op.isCall] at call
      | ended _ _ _ _ erased =>
        rw [erased]
        exact List.erase_sublist
      | cleared _ _ empty =>
        rw [empty]
        exact List.nil_sublist _
  · cases s.outward op with
    | issued _ _ _ opened | told _ _ _ opened => simp [closed] at opened
    | silent _ _ _ _ fired => exact fired

/-! ## For good -/

/-- What lasts of a closed dispatcher through any operations. -/
structure StaysShut (s s' : Attended H) : Prop where
  closed : s'.dispatcher.closed = true
  next : s'.dispatcher.nextId = s.dispatcher.nextId
  table : s'.dispatcher.pending.Sublist s.dispatcher.pending

theorem staysShut_run {s : Attended H} (closed : s.dispatcher.closed = true) (ops : List (Op H)) :
    StaysShut s (s.run ops) ∧ queued (s.entries ops) = [] := by
  induction ops generalizing s with
  | nil => exact ⟨⟨closed, rfl, List.Sublist.refl _⟩, rfl⟩
  | cons op ops ih =>
    have now := shut_step closed op
    obtain ⟨later, unsent⟩ := ih now.closed
    refine ⟨⟨later.closed, later.next.trans now.next, later.table.trans now.table⟩, ?_⟩
    unfold queued at unsent ⊢
    rw [entries, List.flatMap_cons, now.unsent, unsent, List.append_nil]

/-- A pending request ends as its response says, on every dispatcher. -/
theorem step_response {s : Attended H} {id : Int} (pending : id ∈ s.dispatcher.pending) :
    (∀ result, (s.step (.receive (.response id (.ok result)))).2 =
      ⟨.routed (.resolved id), [.completed id (.success result)]⟩) ∧
    ∀ e, (s.step (.receive (.response id (.error e)))).2 =
      ⟨.routed (.rejected id), [.completed id (.failure e)]⟩ := by
  simp [step, advance, Dispatcher.receive, pending, routeOf, completionOf]

/-- A dispatcher that was closed stays so, whichever way it was closed.

It is closed by being told to close, or by a request or a notification when nobody takes
frames any more, and by nothing else.  Whatever happens from then on, every call is refused
because the session is over, nothing is sent, no number is used up and none becomes pending.
Closing has ended every pending request; a call that fails keeps them all, and each ends as
the first operation says that can end it.  Notifications are heard by their handlers, and new
handlers can be registered, as on an open dispatcher. -/
theorem closed_for_good (before : List (Op H)) (op : Op H) (after : List (Op H))
    (opened : (start.run before).dispatcher.closed = false) :
    let s := start.run before
    let c := (s.step op).1
    let w := c.run after
    (c.dispatcher.closed = true ↔
      op = .close ∨ op.isCall = true ∧ s.dispatcher.writable = false) ∧
    (c.dispatcher.closed = true →
      w.dispatcher.closed = true ∧ w.dispatcher.nextId = c.dispatcher.nextId ∧
      queued (c.entries after) = [] ∧
      (∀ call : Op H, call.isCall = true →
        w.step call = (w, ⟨.refused .sessionTerminated, []⟩)) ∧
      w.dispatcher.pending.Sublist c.dispatcher.pending ∧
      (op = .close → w.dispatcher.pending = []) ∧
      (op ≠ .close → c.dispatcher.pending = s.dispatcher.pending) ∧
      (∀ id ∈ c.dispatcher.pending,
        firings id (c.entries after) = (after.findSome? (Op.ending? id)).toList ∧
        (id ∈ w.dispatcher.pending ↔ after.findSome? (Op.ending? id) = none)) ∧
      (∀ id ∈ w.dispatcher.pending,
        (∀ result, (w.step (.receive (.response id (.ok result)))).2 =
          ⟨.routed (.resolved id), [.completed id (.success result)]⟩) ∧
        ∀ e, (w.step (.receive (.response id (.error e)))).2 =
          ⟨.routed (.rejected id), [.completed id (.failure e)]⟩) ∧
      (∀ method handler, c.dispatcher.handler? method = some handler →
        w.dispatcher.handler? method = some handler) ∧
      ∀ method,
        (∀ handler, w.dispatcher.handler? method = some handler → ∀ params,
          w.step (.receive (.notification method params)) =
            (w, ⟨.routed (.notified method), [.called handler params]⟩)) ∧
        (w.dispatcher.handler? method = none → ∀ handler,
          (w.step (.subscribe method handler)).2 = ⟨.done, []⟩ ∧
          (w.step (.subscribe method handler)).1.dispatcher.handler? method =
            some handler)) := by
  intro s c w
  have way := closed_step_iff opened op
  refine ⟨way, fun closed => ?_⟩
  obtain ⟨stays, unsent⟩ := staysShut_run closed after
  have tended : c.Tended := tended_step (tended_run tended_start before) op
  refine ⟨stays.closed, stays.next, unsent, fun call asked => ?_, stays.table, ?_, ?_,
    fun id pending => ?_, fun id pending => step_response pending, ?_, fun method => ⟨?_, ?_⟩⟩
  · obtain ⟨same, refused⟩ := (shut_step stays.closed call).refused asked
    exact Prod.ext same refused
  · rintro rfl
    exact List.sublist_nil.mp stays.table
  · intro other
    rcases way.mp closed with told | ⟨call, unheard⟩
    · exact absurd told other
    · exact pending_step_unheard call unheard
  · have old := tended.numbered.lt_nextId id pending
    refine ⟨?_, ?_⟩
    · rw [firings_entries tended id old, if_pos pending]
    · rw [mem_pending_run tended old]
      exact and_iff_right pending
  · intro method handler found
    rw [handler?_run, found, Option.some_or]
  · exact fun handler found params => step_notification_heard found params
  · intro free handler
    refine ⟨(step_subscribe_free free handler).1, ?_⟩
    rw [handler?_step, free, Option.none_or, Op.handlerFor?, if_pos rfl]

/-- A request is pending when nobody takes a notification any more; it is still answered, and
the next request is refused. -/
theorem closed_for_good_answered :
    let before : List (Op Unit) := [.request "a" .null, .dropWriter]
    let op : Op Unit := .notify "b" .null
    let after : List (Op Unit) :=
      [.receive (.response 1 (.ok (.bool true))), .request "c" .null]
    let c := ((start.run before).step op).1
    (start.run before).dispatcher.closed = false ∧ c.dispatcher.closed = true ∧
      c.dispatcher.pending = [1] ∧ (c.run after).dispatcher.closed = true ∧
      firings 1 (c.entries after) = [.success (.bool true)] ∧
      1 ∉ (c.run after).dispatcher.pending ∧ queued (c.entries after) = [] := by
  intro before op after c
  have opened : (start.run before).dispatcher.closed = false := rfl
  obtain ⟨way, lasts⟩ := closed_for_good before op after opened
  have closed : c.dispatcher.closed = true := way.mpr (.inr ⟨rfl, rfl⟩)
  obtain ⟨still, -, unsent, -, -, -, kept, ends, -⟩ := lasts closed
  have pending : c.dispatcher.pending = [1] := kept (by simp [op])
  obtain ⟨answered, stays⟩ := ends 1 (by rw [pending]; simp)
  refine ⟨opened, closed, pending, still, answered, fun mem => ?_, unsent⟩
  cases stays.mp mem

end Attended

end LanguageClient.Dispatcher
