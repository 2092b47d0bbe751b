import LanguageClient.Dispatch.History

/-!
# The table of pending requests

What a single operation does to the numbers of a dispatcher.  Numbers are handed out
in increasing order, so the pending ones are distinct and below the next one; this is
`Dispatcher.Numbered`, and every operation keeps it.  For one number the operations fall
into two kinds: those that end the request with it, which `Op.ending?` tells without
looking at the dispatcher, and all others, which leave it alone.
-/

set_option autoImplicit false

namespace LanguageClient.Dispatcher

variable {H : Type}

/-- The pending numbers are distinct and have all been handed out. -/
structure Numbered (d : Dispatcher H) : Prop where
  nodup : d.pending.Nodup
  lt_nextId : ∀ id ∈ d.pending, id < d.nextId

/-- How an operation ends the request with a number, if that is pending: a response by
what it says, giving the request up without any value, and the end of all requests by
telling that the session is over. -/
def Op.ending? (id : Int) : Op H → Option Completion
  | .receive (.response n (.ok result)) => if n = id then some (.success result) else none
  | .receive (.response n (.error e)) => if n = id then some (.failure e) else none
  | .cancel n => if n = id then some .dropped else none
  | .failAll | .close => some .terminated
  | _ => none

/-- How an effect completes the request with a number, if it does. -/
def Effect.completion? (id : Int) : Effect H → Option Completion
  | .completed n completion => if n = id then some completion else none
  | _ => none

/-- The completions of the request with a number among effects. -/
def completionsOf (id : Int) (effects : List (Effect H)) : List Completion :=
  effects.filterMap (Effect.completion? id)

theorem numbered_empty : (empty : Dispatcher H).Numbered :=
  ⟨List.nodup_nil, by simp [empty]⟩

@[simp] theorem completionsOf_nil (id : Int) : completionsOf id ([] : List (Effect H)) = [] := rfl

@[simp] theorem completionsOf_cons (id : Int) (e : Effect H) (effects : List (Effect H)) :
    completionsOf id (e :: effects) = (e.completion? id).toList ++ completionsOf id effects := by
  unfold completionsOf
  cases h : e.completion? id <;> simp [h]

@[simp] theorem completionsOf_append (id : Int) (xs ys : List (Effect H)) :
    completionsOf id (xs ++ ys) = completionsOf id xs ++ completionsOf id ys := by
  simp [completionsOf]

/-- Records complete nothing. -/
@[simp] theorem completionsOf_map_logged (id : Int) (records : List LogRecord) :
    completionsOf id (records.map fun r => (Effect.logged r : Effect H)) = [] := by
  simp [completionsOf, Effect.completion?]

/-- Of distinct numbers that are all completed in one way, each is completed once. -/
theorem completionsOf_map_completed (id : Int) (c : Completion) (ids : List Int)
    (h : ids.Nodup) :
    completionsOf id (ids.map fun n => (Effect.completed n c : Effect H)) =
      if id ∈ ids then [c] else [] := by
  induction ids with
  | nil => simp
  | cons n ids ih =>
    obtain ⟨hn, hids⟩ := List.nodup_cons.mp h
    rw [List.map_cons, completionsOf_cons, ih hids]
    by_cases hid : n = id
    · subst hid
      simp [Effect.completion?, hn]
    · simp [Effect.completion?, hid, Ne.symm hid]

/-! ## What an operation can do to the table -/

/-- The ways in which an operation can change the table: it leaves it alone, adds the
number of a new request, ends one request, or ends all of them. -/
inductive TableStep (op : Op H) (d d' : Dispatcher H) (e : Entry H) : Prop
  | kept (next : d.nextId ≤ d'.nextId) (table : d'.pending = d.pending)
      (silent : ∀ id, completionsOf id e.effects = [])
      (spares : ∀ id ∈ d.pending, op.ending? id = none)
  | issued (method : String) (params : Json) (next : d'.nextId = d.nextId + 1)
      (table : d'.pending = d.pending ++ [d.nextId]) (asked : op = .request method params)
      (entry : e = ⟨.issued d.nextId, [.sent (.request d.nextId method params)]⟩)
  | ended (n : Int) (c : Completion) (mem : n ∈ d.pending) (next : d'.nextId = d.nextId)
      (table : d'.pending = d.pending.erase n) (fired : e.effects = [.completed n c])
      (ends : ∀ id, op.ending? id = if n = id then some c else none)
  | cleared (records : List LogRecord) (next : d'.nextId = d.nextId) (table : d'.pending = [])
      (fired : e.effects = records.map .logged ++ d.pending.map (.completed · .terminated))
      (ends : ∀ id, op.ending? id = some .terminated)

open Attended in
/-- Every operation is one of the four kinds. -/
theorem Attended.tableStep (s : Attended H) (op : Op H) :
    TableStep op s.dispatcher (s.step op).1.dispatcher (s.step op).2 := by
  cases op with
  | request method params =>
    by_cases hc : s.dispatcher.closed = true
    · simp only [step, Dispatcher.request, hc, if_true]
      exact .kept (Int.le_refl _) rfl (fun _ => rfl) fun _ _ => rfl
    · by_cases hw : s.dispatcher.writable = true
      · simp only [step, Dispatcher.request, hc, hw, if_true, Bool.false_eq_true, if_false]
        exact .issued method params rfl rfl rfl rfl
      · simp only [step, Dispatcher.request, hc, hw, Bool.false_eq_true, if_false]
        exact .kept (Int.le_add_one (Int.le_refl _)) rfl (fun _ => rfl) fun _ _ => rfl
  | notify method params =>
    simp only [step, advance, Dispatcher.notify]
    split
    · exact .kept (Int.le_refl _) rfl (fun _ => rfl) fun _ _ => rfl
    · split <;> exact .kept (Int.le_refl _) rfl (fun _ => rfl) fun _ _ => rfl
  | subscribe method handler =>
    simp only [step, advance, Dispatcher.subscribe]
    split <;> exact .kept (Int.le_refl _) rfl (fun _ => rfl) fun _ _ => rfl
  | receive message =>
    cases message with
    | response n outcome =>
      simp only [step, advance, Dispatcher.receive]
      split
      · rename_i hn
        cases outcome <;> exact .ended n _ hn rfl rfl rfl fun _ => rfl
      · rename_i hn
        refine .kept (Int.le_refl _) rfl (fun _ => rfl) fun id hid => ?_
        have hne : n ≠ id := fun e => hn (e ▸ hid)
        cases outcome <;> simp [Op.ending?, hne]
    | notification method params =>
      simp only [step, advance, Dispatcher.receive]
      split <;> exact .kept (Int.le_refl _) rfl (fun _ => rfl) fun _ _ => rfl
    | request n method params => exact .kept (Int.le_refl _) rfl (fun _ => rfl) fun _ _ => rfl
  | cancel n =>
    simp only [step, advance, Dispatcher.cancel]
    split
    · rename_i hn
      exact .ended n .dropped hn rfl rfl rfl fun _ => rfl
    · rename_i hn
      refine .kept (Int.le_refl _) rfl (fun _ => rfl) fun id hid => ?_
      have hne : n ≠ id := fun e => hn (e ▸ hid)
      simp [Op.ending?, hne]
  | close => exact .cleared (rejection s.dispatcher.pending) rfl rfl rfl fun _ => rfl
  | failAll => exact .cleared (rejection s.dispatcher.pending) rfl rfl rfl fun _ => rfl
  | dropWriter | forget => exact .kept (Int.le_refl _) rfl (fun _ => rfl) fun _ _ => rfl

namespace TableStep

variable {op : Op H} {d d' : Dispatcher H} {e : Entry H}

/-- Numbers are handed out in increasing order. -/
theorem nextId_le (t : TableStep op d d' e) : d.nextId ≤ d'.nextId := by
  cases t with
  | kept next => exact next
  | issued _ _ next => omega
  | ended _ _ _ next => omega
  | cleared _ next => omega

/-- Every kind of step keeps the numbers in order. -/
theorem numbered (t : TableStep op d d' e) (h : d.Numbered) : d'.Numbered := by
  cases t with
  | kept next table =>
    refine ⟨table ▸ h.nodup, fun n hn => ?_⟩
    have := h.lt_nextId n (table ▸ hn)
    omega
  | issued _ _ next table =>
    have fresh : d.nextId ∉ d.pending := fun hn => by simpa using h.lt_nextId _ hn
    refine ⟨?_, fun n hn => ?_⟩
    · rw [table, List.nodup_append]
      refine ⟨h.nodup, by simp, fun n hn m hm e => fresh ?_⟩
      rw [List.mem_singleton] at hm
      exact hm ▸ e ▸ hn
    · rw [table, List.mem_append, List.mem_singleton] at hn
      rcases hn with hn | rfl
      · have := h.lt_nextId n hn
        omega
      · omega
  | ended m _ _ next table =>
    refine ⟨table ▸ h.nodup.erase m, fun n hn => ?_⟩
    rw [table] at hn
    rw [next]
    exact h.lt_nextId n (List.mem_of_mem_erase hn)
  | cleared _ _ table => exact ⟨by simp [table], by simp [table]⟩

/-- A number that has been handed out stays in the table until an operation ends its
request, and it never comes back. -/
theorem mem_pending_iff (t : TableStep op d d' e) (h : d.Numbered) {id : Int}
    (old : id < d.nextId) : id ∈ d'.pending ↔ id ∈ d.pending ∧ op.ending? id = none := by
  cases t with
  | kept _ table _ spares =>
    rw [table]
    exact ⟨fun hid => ⟨hid, spares id hid⟩, And.left⟩
  | issued _ _ _ table asked =>
    have hne : id ≠ d.nextId := by omega
    simp [table, asked, Op.ending?, hne]
  | ended n c _ _ table _ ends =>
    rw [table, h.nodup.mem_erase_iff, ends id]
    by_cases hid : n = id
    · simp [hid]
    · simp [hid, Ne.symm hid]
  | cleared _ _ table _ ends => simp [table, ends id]

/-- A number comes into the table as that of a request. -/
theorem mem_pending_cases (t : TableStep op d d' e) {id : Int} (h : id ∈ d'.pending) :
    id ∈ d.pending ∨
      ∃ method params, op = .request method params ∧ e.reply = .issued id := by
  cases t with
  | kept _ table => exact .inl (table ▸ h)
  | issued method params _ table asked entry =>
    rw [table, List.mem_append, List.mem_singleton] at h
    rcases h with h | rfl
    · exact .inl h
    · exact .inr ⟨method, params, asked, by rw [entry]⟩
  | ended _ _ _ _ table => exact .inl (List.mem_of_mem_erase (table ▸ h))
  | cleared _ _ table => simp [table] at h

/-- An operation completes a pending request exactly when it ends it, and no other one. -/
theorem completionsOf_eq (t : TableStep op d d' e) (h : d.Numbered) (id : Int) :
    completionsOf id e.effects = if id ∈ d.pending then (op.ending? id).toList else [] := by
  cases t with
  | kept _ _ silent spares =>
    rw [silent id]
    split
    · rename_i hid
      simp [spares id hid]
    · rfl
  | issued _ _ _ _ asked entry =>
    simp [asked, entry, Op.ending?, Effect.completion?]
  | ended n c mem _ _ fired ends =>
    rw [fired, ends id]
    by_cases hid : n = id
    · subst hid
      simp [Effect.completion?, mem]
    · simp [Effect.completion?, hid]
  | cleared records _ _ fired ends =>
    rw [fired, ends id, completionsOf_append, completionsOf_map_logged,
      completionsOf_map_completed id .terminated d.pending h.nodup]
    simp

end TableStep

end LanguageClient.Dispatcher
