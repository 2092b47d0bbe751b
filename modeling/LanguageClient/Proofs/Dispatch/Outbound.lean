import LanguageClient.Proofs.Dispatch.Endings
import LanguageClient.Proofs.Session.Frames
import LanguageClient.Proofs.Wire.RoundTrip

/-!
# What a dispatcher sends

Requests are numbered from one without gaps: a number is used up without a request only
when nobody takes frames any more, and that closes the dispatcher for good.  An operation
puts the message of a call that succeeds on the channel, and no other operation puts
anything there.  Read back, the frames of a history are the calls that succeeded.
-/

set_option autoImplicit false

namespace LanguageClient

/-- The parameters of a request or notification. -/
def Message.params : Message → Json
  | .request _ _ params | .notification _ params => params
  | .response .. => .null

/-- Whether a message of a client can be read by a peer: its parameters have integer
numbers, and neither its depth nor its length is beyond what a reader takes. -/
structure Message.Legible (m : Message) : Prop where
  plain : m.params.Plain
  shallow : m.toJson.depth ≤ Json.nestingLimit
  short : m.body.length ≤ Frame.maxBody

namespace Dispatcher

variable {H : Type}

def Op.isRequest : Op H → Bool
  | .request .. => true
  | _ => false

/-- The message of a call that has succeeded. -/
def Op.message? : Op H → Reply → Option Message
  | .request method params, .issued id => some (.request id method params)
  | .notify method params, .done => some (.notification method params)
  | _, _ => none

def Reply.issued? : Reply → Option Int
  | .issued id => some id
  | _ => none

theorem Op.message?_eq_some {op : Op H} {reply : Reply} {m : Message}
    (h : op.message? reply = some m) :
    (∃ id method params, reply = .issued id ∧ m = .request id method params) ∨
      ∃ method params, m = .notification method params := by
  unfold Op.message? at h
  split at h
  · exact .inl ⟨_, _, _, rfl, (Option.some.inj h).symm⟩
  · exact .inr ⟨_, _, (Option.some.inj h).symm⟩
  · cases h

theorem sentBy_eq_nil {effects : List (Effect H)} (h : ∀ m, .sent m ∉ effects) :
    sentBy effects = [] := by
  apply List.filterMap_eq_nil_iff.mpr
  intro e he
  cases e with
  | sent m => exact absurd he (h m)
  | completed | called | logged => rfl

namespace Attended

/-- The numbers that requests got in a history, in order. -/
def numbers (entries : List (Entry H)) : List Int :=
  entries.filterMap (·.reply.issued?)

/-- The messages whose frames went to the channel in a history, in order. -/
def queued (entries : List (Entry H)) : List Message :=
  entries.flatMap fun e => sentBy e.effects

/-- The calls of a history that succeeded, as messages, in order. -/
def accepted (s : Attended H) (ops : List (Op H)) : List Message :=
  (ops.zip (s.entries ops)).filterMap fun (op, e) => op.message? e.reply

/-! ## One operation -/

/-- What an operation does outwardly: a call succeeds on an open dispatcher and its message
is sent, or nothing is; a number is lost only when that closes the dispatcher. -/
inductive Outward (op : Op H) (d d' : Dispatcher H) (e : Entry H) : Prop
  | issued (method : String) (params : Json) (asked : op = .request method params)
      (opened : d.closed = false) (next : d'.nextId = d.nextId + 1)
      (reply : e.reply = .issued d.nextId)
      (fired : sentBy e.effects = [.request d.nextId method params])
  | told (method : String) (params : Json) (asked : op = .notify method params)
      (opened : d.closed = false) (next : d'.nextId = d.nextId) (reply : e.reply = .done)
      (fired : sentBy e.effects = [.notification method params])
  | silent (next : d'.nextId = d.nextId ∨ d'.closed = true)
      (stays : d.closed = true → d'.closed = true) (unnumbered : e.reply.issued? = none)
      (unsent : op.message? e.reply = none) (fired : sentBy e.effects = [])

theorem outward (s : Attended H) (op : Op H) :
    Outward op s.dispatcher (s.step op).1.dispatcher (s.step op).2 := by
  cases op with
  | request method params =>
    cases closed : s.dispatcher.closed with
    | true =>
      simp only [step, Dispatcher.request, closed, if_true]
      exact .silent (.inl rfl) id rfl rfl rfl
    | false =>
      cases writable : s.dispatcher.writable with
      | true =>
        simp only [step, Dispatcher.request, closed, writable, if_true, Bool.false_eq_true, if_false]
        exact .issued method params rfl closed rfl rfl rfl
      | false =>
        simp only [step, Dispatcher.request, closed, writable, Bool.false_eq_true, if_false]
        exact .silent (.inr rfl) (fun _ => rfl) rfl rfl rfl
  | notify method params =>
    cases closed : s.dispatcher.closed with
    | true =>
      simp only [step, Dispatcher.notify, closed, if_true]
      exact .silent (.inl rfl) id rfl rfl rfl
    | false =>
      cases writable : s.dispatcher.writable with
      | true =>
        simp only [step, Dispatcher.notify, closed, writable, if_true, Bool.false_eq_true, if_false]
        exact .told method params rfl closed rfl rfl rfl
      | false =>
        simp only [step, Dispatcher.notify, closed, writable, Bool.false_eq_true, if_false]
        exact .silent (.inr rfl) (fun _ => rfl) rfl rfl rfl
  | subscribe method handler =>
    simp only [step, Dispatcher.subscribe]
    split <;> exact .silent (.inl rfl) id rfl rfl rfl
  | receive message =>
    cases message with
    | response n outcome =>
      simp only [step, Dispatcher.receive]
      split <;> exact .silent (.inl rfl) id rfl rfl rfl
    | notification method params =>
      simp only [step, Dispatcher.receive]
      split <;> exact .silent (.inl rfl) id rfl rfl rfl
    | request n method params => exact .silent (.inl rfl) id rfl rfl rfl
  | cancel n =>
    simp only [step, Dispatcher.cancel]
    split <;> exact .silent (.inl rfl) id rfl rfl rfl
  | close =>
    refine .silent (.inl rfl) (fun _ => rfl) rfl rfl (sentBy_eq_nil ?_)
    simp [step, advance, Dispatcher.close, failAll]
  | failAll =>
    refine .silent (.inl rfl) id rfl rfl (sentBy_eq_nil ?_)
    simp [step, advance, failAll]
  | dropWriter | forget => exact .silent (.inl rfl) id rfl rfl rfl

/-- An operation sends the message of a call that succeeds, and nothing else. -/
theorem sentBy_step (s : Attended H) (op : Op H) :
    sentBy (s.step op).2.effects = (op.message? (s.step op).2.reply).toList := by
  cases s.outward op with
  | issued _ _ asked _ _ reply fired => rw [fired, reply, asked, Op.message?, Option.toList_some]
  | told _ _ asked _ _ reply fired => rw [fired, reply, asked, Op.message?, Option.toList_some]
  | silent _ _ _ unsent fired => rw [fired, unsent, Option.toList_none]

theorem closed_step {s : Attended H} (closed : s.dispatcher.closed = true) (op : Op H) :
    (s.step op).1.dispatcher.closed = true := by
  cases s.outward op with
  | issued _ _ _ opened => simp [closed] at opened
  | told _ _ _ opened => simp [closed] at opened
  | silent _ stays => exact stays closed

/-- A request that succeeds takes the next number, and otherwise that stays, or it is lost
and the dispatcher is closed. -/
theorem step_numbers (s : Attended H) (op : Op H) :
    (op.isRequest = true ∧ s.dispatcher.closed = false ∧
      (s.step op).2.reply.issued? = some s.dispatcher.nextId ∧
      (s.step op).1.dispatcher.nextId = s.dispatcher.nextId + 1) ∨
    ((s.step op).2.reply.issued? = none ∧
      ((s.step op).1.dispatcher.nextId = s.dispatcher.nextId ∨
        (s.step op).1.dispatcher.closed = true)) := by
  cases s.outward op with
  | issued _ _ asked opened next reply =>
    exact .inl ⟨by rw [asked, Op.isRequest], opened, by rw [reply, Reply.issued?], next⟩
  | told _ _ _ _ next reply => exact .inr ⟨by rw [reply]; rfl, .inl next⟩
  | silent next _ unnumbered => exact .inr ⟨unnumbered, next⟩

/-! ## Histories -/

/-- What went to the channel are the calls that succeeded. -/
theorem queued_entries (s : Attended H) (ops : List (Op H)) :
    queued (s.entries ops) = s.accepted ops := by
  induction ops generalizing s with
  | nil => rfl
  | cons op ops ih =>
    have rest := ih (s.step op).1
    simp only [queued, accepted, entries, List.flatMap_cons, List.zip_cons_cons,
      List.filterMap_cons, sentBy_step] at rest ⊢
    rw [rest]
    cases op.message? (s.step op).2.reply <;> rfl

theorem numbers_of_closed {s : Attended H} (closed : s.dispatcher.closed = true)
    (ops : List (Op H)) : numbers (s.entries ops) = [] := by
  induction ops generalizing s with
  | nil => rfl
  | cons op ops ih =>
    have rest := ih (closed_step closed op)
    rcases s.step_numbers op with ⟨-, opened, -⟩ | ⟨unnumbered, -⟩
    · rw [closed] at opened
      cases opened
    · simp only [numbers, entries, List.filterMap_cons, unnumbered] at rest ⊢
      exact rest

/-- From any moment on the requests are numbered upwards from the next number. -/
theorem getElem?_numbers {s : Attended H} {ops : List (Op H)} {k : Nat} {id : Int}
    (h : (numbers (s.entries ops))[k]? = some id) : id = s.dispatcher.nextId + k := by
  induction ops generalizing s k with
  | nil => simp [numbers, entries] at h
  | cons op ops ih =>
    rcases s.step_numbers op with ⟨-, -, issued, next⟩ | ⟨unnumbered, kept⟩
    · simp only [numbers, entries, List.filterMap_cons, issued] at h
      cases k with
      | zero => simpa using h.symm
      | succ k =>
        have := ih h
        push_cast
        omega
    · have later : (numbers ((s.step op).1.entries ops))[k]? = some id := by
        simpa only [numbers, entries, List.filterMap_cons, unnumbered] using h
      -- A lost number makes no gap: a closed dispatcher gives out none after it.
      rcases kept with same | closed
      · rw [← same]
        exact ih later
      · rw [numbers_of_closed closed] at later
        cases later

theorem length_numbers_le (s : Attended H) (ops : List (Op H)) :
    (numbers (s.entries ops)).length ≤ ops.countP Op.isRequest := by
  induction ops generalizing s with
  | nil => exact Nat.le_refl _
  | cons op ops ih =>
    have rest := ih (s.step op).1
    rcases s.step_numbers op with ⟨request, -, issued, -⟩ | ⟨unnumbered, -⟩
    · simp only [numbers, entries, List.filterMap_cons, issued, List.length_cons,
        List.countP_cons, request, if_true] at rest ⊢
      omega
    · simp only [numbers, entries, List.filterMap_cons, unnumbered, List.countP_cons] at rest ⊢
      omega

theorem accepted_cases {s : Attended H} {ops : List (Op H)} {m : Message}
    (h : m ∈ s.accepted ops) :
    (∃ id method params, m = .request id method params ∧ id ∈ numbers (s.entries ops)) ∨
      ∃ method params, m = .notification method params := by
  obtain ⟨⟨op, e⟩, member, asked⟩ := List.mem_filterMap.mp h
  rcases Op.message?_eq_some asked with ⟨id, method, params, reply, rfl⟩ | told
  · refine .inl ⟨id, method, params, rfl, ?_⟩
    apply List.mem_filterMap.mpr
    exact ⟨e, (List.of_mem_zip member).2, by rw [show e.reply = _ from reply]; rfl⟩
  · exact .inr told

/-- A legible call of a history with few requests fits, and comes back as it was. -/
theorem fits_of_accepted {ops : List (Op H)} {m : Message}
    (few : ops.countP Op.isRequest < 2 ^ 63) (h : m ∈ start.accepted ops)
    (legible : m.Legible) : m.Fits ∧ m.received = m := by
  rcases accepted_cases h with ⟨id, method, params, rfl, numbered⟩ | ⟨method, params, rfl⟩
  · obtain ⟨k, short, at_k⟩ := List.mem_iff_getElem.mp numbered
    have place : id = 1 + (k : Int) :=
      getElem?_numbers (List.getElem?_eq_some_iff.mpr ⟨short, at_k⟩)
    have bound := length_numbers_le start ops
    refine ⟨⟨?_, legible.plain⟩, rfl⟩
    unfold Message.Signed
    omega
  · exact ⟨legible.plain, rfl⟩

theorem outcomes_accepted {ops : List (Op H)} (few : ops.countP Op.isRequest < 2 ^ 63)
    (legible : ∀ m ∈ start.accepted ops, m.Legible) :
    outcomes ((start.accepted ops).flatMap Message.encode) =
      ((start.accepted ops).map .ok, none) := by
  have short : ∀ b ∈ (start.accepted ops).map Message.body, b.length ≤ Frame.maxBody := by
    intro b hb
    obtain ⟨m, hm, rfl⟩ := List.mem_map.mp hb
    exact (legible m hm).short
  have parsed : ((start.accepted ops).map Message.body).map Message.parse? =
      (start.accepted ops).map .ok := by
    rw [List.map_map]
    apply List.map_congr_left
    intro m hm
    obtain ⟨fits, same⟩ := fits_of_accepted few hm (legible m hm)
    show Message.parse? m.body = .ok m
    rw [Message.parse?_body fits (legible m hm).shallow, same]
  have stream := outcomes_frames short []
  rw [List.append_nil, outcomes_nil, parsed, List.append_nil, List.flatMap_map] at stream
  exact stream

/-- In every history from the start with fewer than `2 ^ 63` requests, the requests that
succeed are numbered from one without gaps, what is pending is below the next number, and
an operation puts the message of a call that succeeds on the channel, and nothing else.
If the calls that succeeded are legible, reading the frames on the channel gives them
back, with their numbers, methods and parameters, in the order of the calls. -/
theorem frames_read_back (history : List (Op H)) (few : history.countP Op.isRequest < 2 ^ 63) :
    (∀ (k : Nat) (id : Int), (numbers (start.entries history))[k]? = some id → id = k + 1) ∧
    (∀ id ∈ (start.run history).dispatcher.pending,
      id < (start.run history).dispatcher.nextId) ∧
    (∀ op : Op H, sentBy ((start.run history).step op).2.effects =
      (op.message? ((start.run history).step op).2.reply).toList) ∧
    queued (start.entries history) = start.accepted history ∧
    ((∀ m ∈ start.accepted history, m.Legible) →
      outcomes ((queued (start.entries history)).flatMap Message.encode) =
        ((start.accepted history).map .ok, none)) := by
  refine ⟨fun k id at_k => ?_, (tended_run tended_start history).numbered.lt_nextId,
    sentBy_step _, queued_entries start history, fun legible => ?_⟩
  · have numbered : id = 1 + (k : Int) := getElem?_numbers at_k
    omega
  · rw [queued_entries]
    exact outcomes_accepted few legible

/-- A request that is given up, one that is told, and one for which nobody takes frames. -/
theorem frames_read_back_unheard :
    let history : List (Op Unit) :=
      [.request "a" (.arr [.int 7]), .cancel 1, .notify "b" .null, .request "c" .null,
        .dropWriter, .request "d" .null, .notify "e" .null]
    history.countP Op.isRequest < 2 ^ 63 ∧ numbers (start.entries history) = [1, 2] ∧
      outcomes ((queued (start.entries history)).flatMap Message.encode) =
        ([.ok (.request 1 "a" (.arr [.int 7])), .ok (.notification "b" .null),
          .ok (.request 2 "c" .null)], none) := by
  intro history
  have few : history.countP Op.isRequest < 2 ^ 63 := by decide
  have calls : start.accepted history = [.request 1 "a" (.arr [.int 7]), .notification "b" .null,
      .request 2 "c" .null] := rfl
  have legible : ∀ m ∈ start.accepted history, m.Legible := by
    rw [calls]
    intro m hm
    simp only [List.mem_cons, List.not_mem_nil, or_false] at hm
    rcases hm with rfl | rfl | rfl
    · refine ⟨?_, by decide, by decide +kernel⟩
      simp [Message.params, Json.Plain, Json.Ordered, Json.OrderedItems, Json.Integral,
        Json.IntegralItems]
    · exact ⟨⟨trivial, trivial⟩, by decide, by decide +kernel⟩
    · exact ⟨⟨trivial, trivial⟩, by decide, by decide +kernel⟩
  have law := (frames_read_back history few).2.2.2.2 legible
  rw [calls] at law
  exact ⟨few, rfl, law⟩

end Attended

end Dispatcher

end LanguageClient
