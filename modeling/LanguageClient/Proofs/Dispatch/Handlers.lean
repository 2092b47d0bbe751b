import LanguageClient.Proofs.Dispatch.Endings

/-!
# Who hears a notification

The handler of a method is the one of its first registration, whatever happens before and
after that.  Only registering touches the handlers, and only a notification calls one.
-/

set_option autoImplicit false

namespace LanguageClient.Dispatcher

variable {H : Type}

/-- The handler that an operation is to register for a method. -/
def Op.handlerFor? (method : String) : Op H → Option H
  | .subscribe m handler => if m = method then some handler else none
  | _ => none

/-- A further registration is the last to answer. -/
theorem handler?_subscribed {d d' : Dispatcher H} {m : String} {handler : H}
    (h : d'.handlers = d.handlers ++ [(m, handler)]) (method : String) :
    d'.handler? method =
      (d.handler? method).or (if m = method then some handler else none) := by
  rw [handler?, handler?, h, List.find?_append, Option.map_or]
  congr 1
  by_cases same : m = method <;> simp [same]

theorem handler?_congr {d d' : Dispatcher H} (h : d'.handlers = d.handlers) (method : String) :
    d'.handler? method = d.handler? method := by
  rw [handler?, handler?, h]

namespace Attended

/-! ## One operation -/

/-- Without completions the same callers wait. -/
theorem advance_of_silent {α : Type} (s : Attended H) {o : Outcome H α} (reply : Reply)
    (next : o.next = s.dispatcher) (silent : completedIds o.effects = []) :
    s.advance o reply = (s, ⟨reply, o.effects⟩) := by
  have waiting : s.awaited.filter (· ∉ completedIds o.effects) = s.awaited := by simp [silent]
  rw [advance, next, waiting]

section Registry

variable {s : Attended H} {method : String}

theorem step_notification_heard {handler : H}
    (found : s.dispatcher.handler? method = some handler) (params : Json) :
    s.step (.receive (.notification method params)) =
      (s, ⟨.routed (.notified method), [.called handler params]⟩) := by
  simp only [step, Dispatcher.receive, found]
  exact advance_of_silent s _ rfl rfl

theorem step_notification_unheard (missing : s.dispatcher.handler? method = none)
    (params : Json) :
    s.step (.receive (.notification method params)) =
      (s, ⟨.routed (.unhandled method),
        [.logged (.warn ("unhandled notification: " ++ method))]⟩) := by
  simp only [step, Dispatcher.receive, missing]
  exact advance_of_silent s _ rfl rfl

theorem step_subscribe_free (free : s.dispatcher.handler? method = none) (handler : H) :
    (s.step (.subscribe method handler)).2 = ⟨.done, []⟩ ∧
      (s.step (.subscribe method handler)).1.dispatcher.handlers =
        s.dispatcher.handlers ++ [(method, handler)] := by
  simp [step, advance, Dispatcher.subscribe, free]

theorem step_subscribe_taken (taken : s.dispatcher.handler? method ≠ none) (handler : H) :
    s.step (.subscribe method handler) = (s, ⟨.refused (.handlerExists method), []⟩) := by
  obtain ⟨old, found⟩ := Option.ne_none_iff_exists'.mp taken
  simp only [step, Dispatcher.subscribe, found]
  exact advance_of_silent s _ rfl rfl

end Registry

/-- What an operation has to do with the handlers: it registers one or is refused, it is a
notification that somebody hears or nobody, or it leaves them alone and calls none. -/
inductive Hearing (op : Op H) (s s' : Attended H) (e : Entry H) : Prop
  | registered (method : String) (handler : H) (asked : op = .subscribe method handler)
      (free : s.dispatcher.handler? method = none)
      (handlers : s'.dispatcher.handlers = s.dispatcher.handlers ++ [(method, handler)])
      (entry : e = ⟨.done, []⟩)
  | refused (method : String) (handler : H) (asked : op = .subscribe method handler)
      (taken : s.dispatcher.handler? method ≠ none) (same : s' = s)
      (entry : e = ⟨.refused (.handlerExists method), []⟩)
  | heard (method : String) (params : Json) (handler : H)
      (asked : op = .receive (.notification method params))
      (found : s.dispatcher.handler? method = some handler) (same : s' = s)
      (entry : e = ⟨.routed (.notified method), [.called handler params]⟩)
  | unheard (method : String) (params : Json)
      (asked : op = .receive (.notification method params))
      (missing : s.dispatcher.handler? method = none) (same : s' = s)
      (entry : e = ⟨.routed (.unhandled method),
        [.logged (.warn ("unhandled notification: " ++ method))]⟩)
  | aside (unasked : ∀ method, op.handlerFor? method = none)
      (untold : ∀ method params, op ≠ .receive (.notification method params))
      (handlers : s'.dispatcher.handlers = s.dispatcher.handlers)
      (silent : ∀ handler params, .called handler params ∉ e.effects)

theorem hearing (s : Attended H) (op : Op H) : Hearing op s (s.step op).1 (s.step op).2 := by
  cases op with
  | subscribe method handler =>
    by_cases free : s.dispatcher.handler? method = none
    · obtain ⟨entry, handlers⟩ := step_subscribe_free free handler
      exact .registered method handler rfl free handlers entry
    · rw [step_subscribe_taken free handler]
      exact .refused method handler rfl free rfl rfl
  | receive message =>
    cases message with
    | notification method params =>
      cases found : s.dispatcher.handler? method with
      | some handler =>
        rw [step_notification_heard found params]
        exact .heard method params handler rfl found rfl rfl
      | none =>
        rw [step_notification_unheard found params]
        exact .unheard method params rfl found rfl rfl
    | response n outcome =>
      refine .aside (fun _ => rfl) (by simp) ?_ ?_ <;>
        simp only [step, advance, Dispatcher.receive] <;> split <;> simp
    | request n method params =>
      exact .aside (fun _ => rfl) (by simp) rfl (by simp [step, advance, Dispatcher.receive])
  | request method params =>
    refine .aside (fun _ => rfl) (by simp) ?_ ?_ <;>
      by_cases closed : s.dispatcher.closed = true <;>
        by_cases writable : s.dispatcher.writable = true <;>
          simp [step, advance, Dispatcher.request, closed, writable]
  | notify method params =>
    refine .aside (fun _ => rfl) (by simp) ?_ ?_ <;>
      by_cases closed : s.dispatcher.closed = true <;>
        by_cases writable : s.dispatcher.writable = true <;>
          simp [step, advance, Dispatcher.notify, closed, writable]
  | cancel n =>
    refine .aside (fun _ => rfl) (by simp) ?_ ?_ <;>
      by_cases known : n ∈ s.dispatcher.pending <;>
        simp [step, advance, Dispatcher.cancel, known]
  | close =>
    refine .aside (fun _ => rfl) (by simp) rfl ?_
    simp [step, advance, Dispatcher.close, Dispatcher.failAll]
  | failAll =>
    refine .aside (fun _ => rfl) (by simp) rfl ?_
    simp [step, advance, Dispatcher.failAll]
  | dropWriter | forget =>
    exact .aside (fun _ => rfl) (by simp) rfl (by simp [step])

/-- A method keeps its handler, and one without gets that of a registration. -/
theorem handler?_step (s : Attended H) (op : Op H) (method : String) :
    (s.step op).1.dispatcher.handler? method =
      (s.dispatcher.handler? method).or (op.handlerFor? method) := by
  cases s.hearing op with
  | registered m handler asked free handlers =>
    rw [handler?_subscribed handlers, asked, Op.handlerFor?]
  | refused m handler asked taken same =>
    rw [same, asked, Op.handlerFor?]
    by_cases here : m = method
    · obtain ⟨old, found⟩ := Option.ne_none_iff_exists'.mp taken
      rw [← here, found, Option.some_or]
    · rw [if_neg here, Option.or_none]
  | heard _ _ _ asked _ same | unheard _ _ asked _ same =>
    rw [same, asked]
    simp [Op.handlerFor?]
  | aside unasked untold handlers =>
    rw [handler?_congr handlers, unasked method, Option.or_none]

/-! ## Histories -/

/-- After any operations a method has the handler that it had, or else the first that was to
be registered. -/
theorem handler?_run (s : Attended H) (ops : List (Op H)) (method : String) :
    (s.run ops).dispatcher.handler? method =
      (s.dispatcher.handler? method).or (ops.findSome? (Op.handlerFor? method)) := by
  induction ops generalizing s with
  | nil => simp
  | cons op ops ih =>
    rw [run_cons, ih, handler?_step, Option.or_assoc, List.findSome?_cons]
    cases op.handlerFor? method <;> rfl

/-- The handlers that a history registers for a method. -/
def registered (method : String) (s : Attended H) (ops : List (Op H)) : List H :=
  (ops.zip (s.entries ops)).filterMap fun (op, e) =>
    if e.reply = .done then op.handlerFor? method else none

/-- A registration succeeds for a method without a handler. -/
theorem registered_cons (method : String) (s : Attended H) (op : Op H) (ops : List (Op H)) :
    registered method s (op :: ops) =
      (if s.dispatcher.handler? method = none then op.handlerFor? method else none).toList ++
        registered method (s.step op).1 ops := by
  have here : (if (s.step op).2.reply = .done then op.handlerFor? method else none) =
      if s.dispatcher.handler? method = none then op.handlerFor? method else none := by
    cases s.hearing op with
    | registered m handler asked free _ entry =>
      rw [entry, if_pos rfl, asked, Op.handlerFor?]
      by_cases same : m = method
      · simp [same, same ▸ free]
      · simp [same]
    | refused m handler asked taken _ entry =>
      rw [entry, if_neg (by simp), asked, Op.handlerFor?]
      by_cases same : m = method
      · simp [same ▸ taken]
      · simp [same]
    | heard m params handler asked | unheard m params asked => simp [asked, Op.handlerFor?]
    | aside unasked => simp [unasked method]
  rw [← here, registered, entries, List.zip_cons_cons, List.filterMap_cons]
  cases made : if (s.step op).2.reply = .done then op.handlerFor? method else none <;>
    simp [made, registered]

/-- A method that has no handler gets the first one that is to be registered, and no other. -/
theorem registered_eq (method : String) (s : Attended H) (ops : List (Op H)) :
    registered method s ops =
      if s.dispatcher.handler? method = none then
        (ops.findSome? (Op.handlerFor? method)).toList
      else [] := by
  induction ops generalizing s with
  | nil => simp [registered]
  | cons op ops ih =>
    rw [registered_cons, ih, handler?_step, List.findSome?_cons]
    by_cases free : s.dispatcher.handler? method = none
    · cases asked : op.handlerFor? method <;> simp [free]
    · obtain ⟨handler, found⟩ := Option.ne_none_iff_exists'.mp free
      simp [found]

/-- A notification is heard by the handler of the first registration for its method.

After every history a method has the handler that was first to be registered for it, which
is the only one that ever was.  If there is one, a notification of the method calls it once
with the parameters and is reported as heard, and a further registration fails and changes
nothing; if there is none, a notification is logged and reported as unhandled, and a
registration succeeds.  Whatever else happens touches no handler and calls none. -/
theorem first_registration_hears (history : List (Op H)) (method : String) :
    let s := start.run history
    let first? := history.findSome? (Op.handlerFor? method)
    registered method start history = first?.toList ∧
    (∀ params,
      (∀ handler, first? = some handler →
        s.step (.receive (.notification method params)) =
          (s, ⟨.routed (.notified method), [.called handler params]⟩)) ∧
      (first? = none →
        s.step (.receive (.notification method params)) =
          (s, ⟨.routed (.unhandled method),
            [.logged (.warn ("unhandled notification: " ++ method))]⟩))) ∧
    (∀ handler,
      (first? = none → (s.step (.subscribe method handler)).2 = ⟨.done, []⟩) ∧
      (first? ≠ none → s.step (.subscribe method handler) =
        (s, ⟨.refused (.handlerExists method), []⟩))) ∧
    ∀ op, (∀ m handler, op ≠ .subscribe m handler) →
      (∀ m params, op ≠ .receive (.notification m params)) →
      (s.step op).1.dispatcher.handlers = s.dispatcher.handlers ∧
        ∀ handler params, .called handler params ∉ (s.step op).2.effects := by
  intro s first?
  have known : s.dispatcher.handler? method = first? := handler?_run start history method
  refine ⟨registered_eq method start history, fun params => ⟨fun handler hears => ?_, fun none => ?_⟩,
    fun handler => ⟨fun none => ?_, fun some => ?_⟩, fun op unasked untold => ?_⟩
  · exact step_notification_heard (known.trans hears) params
  · exact step_notification_unheard (known.trans none) params
  · exact (step_subscribe_free (known.trans none) handler).1
  · exact step_subscribe_taken (known ▸ some) handler
  · cases s.hearing op with
    | registered m h asked | refused m h asked => exact absurd asked (unasked m h)
    | heard m p _ asked | unheard m p asked => exact absurd asked (untold m p)
    | aside _ _ handlers silent => exact ⟨handlers, silent⟩

/-- The second handler of a method is refused, also after the dispatcher was closed. -/
theorem first_registration_hears_second_refused :
    let history : List (Op Nat) :=
      [.subscribe "a" 1, .failAll, .close, .subscribe "a" 2, .subscribe "b" 3]
    history.findSome? (Op.handlerFor? "a") = some 1 ∧
      (start.run history).step (.receive (.notification "a" (.int 7))) =
        (start.run history, ⟨.routed (.notified "a"), [.called 1 (.int 7)]⟩) := by
  intro history
  have first : history.findSome? (Op.handlerFor? "a") = some 1 := rfl
  exact ⟨first, ((first_registration_hears history "a").2.1 (.int 7)).1 1 first⟩

end Attended

end LanguageClient.Dispatcher
