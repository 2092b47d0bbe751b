import LanguageClient.Proofs.Workspace.Queue

/-!
# Where the courier of a lane stands

While the dispatcher of a lane is open, the place of the courier decides which call is
under way and what had been sent when it began (`Stands`), and the documents of the script
and the activations still ahead are together all that were queued (`Awaiting`).  Every
step keeps both; hence what is sent is in the order of the script (`Scripted`).
-/

set_option autoImplicit false

namespace LanguageClient

/-- The document that an activation opens in a language; its path is seen from a folder. -/
def Activation.document (folder : Path) (language : String) (item : Activation) :
    Except ClientError Document :=
  (Uri.ofPathIn folder item.path).map fun uri => ⟨uri, language, item.version, item.text⟩

theorem Activation.document_eq_ok {folder : Path} {language : String} {item : Activation}
    {d : Document} :
    item.document folder language = .ok d ↔ Uri.ofPathIn folder item.path = .ok d.uri ∧
      d.language = language ∧ d.version = item.version ∧ d.text = item.text := by
  unfold document
  cases Uri.ofPathIn folder item.path with
  | error e => simp [Except.map]
  | ok uri =>
    obtain ⟨u, k, v, t⟩ := d
    simp only [Except.map, Except.ok.injEq, Document.mk.injEq]
    constructor
    · rintro ⟨rfl, rfl, rfl, rfl⟩
      exact ⟨rfl, rfl, rfl, rfl⟩
    · rintro ⟨rfl, rfl, rfl, rfl⟩
      exact ⟨rfl, rfl, rfl, rfl⟩

namespace Lane

/-! ## Places -/

variable {l l' : Lane} {ds : List Document} {items done : List Activation}

/-- Whether documents are those that activations open in a lane. -/
def Opens (l : Lane) (ds : List Document) (items : List Activation) : Prop :=
  ds.map Except.ok = items.map (Activation.document l.folder l.session.language)

/-- The ways in which the courier of an open lane has come to its end. -/
inductive Closes (l : Lane) : Phase → List Message → List Document → Prop
  | rejected (refused : l.session.Rejected) : Closes l .launched [.hello l.greeting] []
  | drained {ds : List Document} (greeted : l.session.Greeted) :
      Closes l .initialized (Message.script l.greeting ds) ds

/-- The places of the courier, with what belongs to them as long as the dispatcher is open;
the documents are those that have been opened so far or are to be opened next. -/
inductive Stands (l : Lane) : Courier → List Document → Prop
  | starting (idle : l.session.Idle .launched [])
      (free : l.session.dispatcher.handlers = []) : Stands l .starting []
  | subscribing {n : Nat}
      (engaged : l.session.Engaged n (.subscribe publishMethod) .launched []) :
      Stands l (.subscribing n) []
  | greeting {n : Nat} (engaged : l.session.Engaged n (.handshake l.greeting) .launched []) :
      Stands l (.greeting n) []
  | announcing {n : Nat} (greeted : l.session.Greeted)
      (engaged : l.session.Engaged n (.notify "initialized" (.obj [])) .initialized
        [.hello l.greeting]) : Stands l (.announcing n) []
  | idle {ds : List Document} (greeted : l.session.Greeted)
      (idle : l.session.Idle .initialized (Message.script l.greeting ds)) : Stands l .idle ds
  | closing {n : Nat} {next : Activation} {ds : List Document} {uri : String}
      (greeted : l.session.Greeted) (held : Message.current none ds = some uri)
      (engaged : l.session.Engaged n (.closeDocument uri) .initialized
        (Message.script l.greeting ds)) : Stands l (.closing n next) ds
  | opening {n : Nat} {ds : List Document} {d : Document} (greeted : l.session.Greeted)
      (engaged : l.session.Engaged n (.openDocument d) .initialized
        (Message.script l.greeting ds ++ Message.closing (Message.current none ds))) :
      Stands l (.opening n) (ds ++ [d])
  | ended {phase : Phase} {sent : List Message} {ds : List Document}
      (closes : l.Closes phase sent ds) (alone : l.farewell = none)
      (idle : l.session.Idle phase sent) : Stands l .ended ds
  | leaving {n grace : Nat} {phase : Phase} {sent : List Message} {ds : List Document}
      (closes : l.Closes phase sent ds) (farewell : l.farewell = some n)
      (engaged : l.session.Engaged n (.shutdown grace) phase sent) : Stands l .ended ds

/-- The activations that the courier still has to carry out. -/
def ahead (l : Lane) : List Activation :=
  match l.courier with
  | .closing _ next => next :: l.queue
  | _ => l.queue

/-- A courier that can still switch has opened the documents of some activations, and these
and the ones ahead of it are all that were queued. -/
structure Awaiting (l : Lane) (done : List Activation) (ds : List Document)
    (items : List Activation) : Prop where
  alone : l.farewell = none
  opens : l.Opens ds done
  queued : done ++ l.ahead = items

/-- What holds of a lane while its dispatcher is open.  A courier that ends after the
handshake has opened everything, and nothing can come any more. -/
structure Orderly (l : Lane) (ds : List Document) (items : List Activation) : Prop where
  stands : l.Stands l.courier ds
  opens : ∃ done, done <+: items ∧ l.Opens ds done
  awaiting : l.courier ≠ .ended → ∃ done, l.Awaiting done ds items
  drained : l.courier = .ended → l.session.Rejected ∨ l.accepting = false ∧ l.Opens ds items

/-! ## The documents of activations -/

theorem opens_nil (l : Lane) : l.Opens [] [] := rfl

theorem Opens.move (h : l.Opens ds done) (folder : l'.folder = l.folder)
    (language : l'.session.language = l.session.language) : l'.Opens ds done := by
  unfold Opens
  rw [folder, language]
  exact h

theorem Opens.snoc (h : l.Opens ds done) {item : Activation} {d : Document}
    (is : item.document l.folder l.session.language = .ok d) :
    l.Opens (ds ++ [d]) (done ++ [item]) := by
  unfold Opens at h ⊢
  rw [List.map_append, List.map_append, h, List.map_singleton, List.map_singleton, is]

/-- The same activations open the same documents. -/
theorem Opens.unique {es : List Document} (h : l.Opens ds items) (k : l.Opens es items) :
    ds = es := by
  exact (List.map_inj_right fun _ _ same => Except.ok.inj same).mp (h.trans k.symm)

theorem Opens.documents (h : l.Opens ds done) :
    (ds.map fun d => (Except.ok d.uri, d.text)) =
      done.map fun item => (Uri.ofPathIn l.folder item.path, item.text) := by
  unfold Opens at h
  induction ds generalizing done with
  | nil =>
    rw [List.map_nil] at h
    rw [List.map_eq_nil_iff.mp h.symm]
    rfl
  | cons d ds ih =>
    cases done with
    | nil => cases h
    | cons item done =>
      obtain ⟨first, rest⟩ := List.cons.inj h
      obtain ⟨uri, -, -, text⟩ := Activation.document_eq_ok.mp first.symm
      rw [List.map_cons, List.map_cons, ih rest, uri, text]

/-- The document that is open is that of the last activation. -/
theorem Opens.current (h : l.Opens ds done) :
    (Message.current none ds).map Except.ok =
      (done.map Activation.path).getLast?.map (Uri.ofPathIn l.folder) := by
  have uris := congrArg (List.map Prod.fst) h.documents
  rw [List.map_map, List.map_map] at uris
  rw [Message.current, latest_map, List.map_map, ← List.getLast?_map, List.map_map,
    latest_eq_getLast?, Option.map_none, Option.or_none]
  exact congrArg List.getLast? uris

/-- Activations whose paths have URIs open documents. -/
theorem opens_of_convertible (known : Convertible l.folder (items.map Activation.visit)) :
    ∃ ds, l.Opens ds items := by
  induction items with
  | nil => exact ⟨[], rfl⟩
  | cons item items ih =>
    obtain ⟨ds, rest⟩ := ih fun v made => known v (List.mem_cons_of_mem _ made)
    obtain ⟨uri, converts⟩ := known item.visit List.mem_cons_self
    let d : Document := ⟨uri, l.session.language, item.version, item.text⟩
    have first : item.document l.folder l.session.language = .ok d :=
      Activation.document_eq_ok.mpr ⟨converts, rfl, rfl, rfl⟩
    refine ⟨d :: ds, ?_⟩
    unfold Opens at rest ⊢
    rw [List.map_cons, List.map_cons, rest, first]

/-- An activation ahead starts from the document that is open, and its own has a URI. -/
theorem Awaiting.next {rest : List Activation} {item : Activation}
    (h : l.Awaiting done ds items) (queues : l.Queues items) (ahead : l.ahead = item :: rest)
    (known : Convertible l.folder (items.map Activation.visit)) :
    item.previous = (done.map Activation.path).getLast? ∧
      ∃ uri, Uri.ofPathIn l.folder item.path = .ok uri := by
  have queued := h.queued
  rw [ahead] at queued
  have here : items[done.length]? = some item := by simp [← queued]
  refine ⟨?_, known item.visit (List.mem_map_of_mem (List.mem_of_getElem? here))⟩
  rw [queues.itinerary] at here
  obtain ⟨previous, -⟩ := getElem?_itinerary here
  rw [List.nil_append, ← List.map_take, map_path_visit, ← queued, List.take_left] at previous
  exact previous

/-! ## The order -/

/-- How far what was sent has come: the handshake has failed; or it is not complete; or the
documents of some of the activations are opened; or those of all of them, and then the end
may follow. -/
inductive Scripted (l : Lane) (items : List Activation) : Prop
  | refused (rejected : l.session.Rejected)
      (sent : l.session.sent <+: [.hello l.greeting, .leave])
  | early (sent : l.session.sent <+: [.hello l.greeting])
  | under {done : List Activation} {ds : List Document} (greeted : l.session.Greeted)
      (within : done <+: items) (opens : l.Opens ds done)
      (sent : l.session.sent <+: Message.script l.greeting ds)
  | beyond {ds : List Document} (greeted : l.session.Greeted) (ended : l.courier = .ended)
      (shut : l.accepting = false) (opens : l.Opens ds items)
      (sent : l.session.sent <+: Message.script l.greeting ds ++ [.bye, .leave])

/-- What a lane has sent while its dispatcher is open is in order. -/
theorem Orderly.scripted (h : l.Orderly ds items) (named : l.Named) (queues : l.Queues items)
    (known : Convertible l.folder (items.map Activation.visit)) : l.Scripted items := by
  obtain ⟨stands, ⟨done, within, opens⟩, awaiting, drained⟩ := h
  generalize place : l.courier = courier at stands awaiting drained
  have under : ∀ {sent : List Message}, l.session.Greeted → l.session.sent = sent →
      sent <+: Message.script l.greeting ds → l.Scripted items := by
    rintro _ greeted rfl order
    exact .under greeted within opens order
  have beyond : ∀ {sent : List Message}, courier = .ended → l.session.Greeted →
      l.session.sent = sent → sent <+: Message.script l.greeting ds ++ [.bye, .leave] →
      l.Scripted items := by
    rintro _ ended greeted rfl order
    rcases drained ended with rejected | ⟨shut, whole⟩
    · exact absurd rejected (named.not_rejected greeted)
    · exact .beyond greeted (place.trans ended) shut whole order
  cases stands with
  | starting idle => exact .early (idle.sent ▸ List.nil_prefix)
  | subscribing engaged =>
    rcases engaged.sent_cases with none | said | ⟨_, shutdown, -⟩
    · exact .early (none ▸ List.nil_prefix)
    · exact .early (said ▸ List.nil_prefix)
    · cases shutdown
  | greeting engaged =>
    rcases engaged.sent_cases with none | said | ⟨_, shutdown, -⟩
    · exact .early (none ▸ List.nil_prefix)
    · exact .early (said ▸ List.prefix_rfl)
    · cases shutdown
  | announcing greeted engaged =>
    rcases engaged.sent_cases with base | said | ⟨_, shutdown, -⟩
    · exact .early (base ▸ List.prefix_rfl)
    · exact under greeted said (List.prefix_append [_, _] [])
    · cases shutdown
  | idle greeted idle => exact under greeted idle.sent List.prefix_rfl
  | @closing n next ds uri greeted held engaged =>
    rcases engaged.sent_cases with base | said | ⟨_, shutdown, -⟩
    · exact under greeted base List.prefix_rfl
    · -- The closing already belongs to the switch to `next`, whose document is not open yet.
      obtain ⟨done, waiting⟩ := awaiting (by simp)
      have ahead : l.ahead = next :: l.queue := by rw [Lane.ahead, place]
      obtain ⟨-, uri', converts⟩ := waiting.next queues ahead known
      let d : Document := ⟨uri', l.session.language, next.version, next.text⟩
      have is : next.document l.folder l.session.language = .ok d :=
        Activation.document_eq_ok.mpr ⟨converts, rfl, rfl, rfl⟩
      have queued := waiting.queued
      rw [ahead, List.append_cons] at queued
      refine .under greeted ⟨_, queued⟩ (waiting.opens.snoc is) ?_
      rw [said, Message.script_snoc, held]
      exact List.prefix_append _ _
    · cases shutdown
  | @opening n ds d greeted engaged =>
    rcases engaged.sent_cases with base | said | ⟨_, shutdown, -⟩
    · refine under greeted base ?_
      rw [Message.script_snoc]
      exact List.prefix_append _ _
    · refine under greeted said ?_
      rw [Message.script_snoc]
      exact List.prefix_rfl
    · cases shutdown
  | ended closes alone idle =>
    cases closes with
    | rejected refused => exact .refused refused (idle.sent ▸ List.prefix_append [_] [_])
    | drained greeted => exact beyond rfl greeted idle.sent (List.prefix_append _ _)
  | leaving closes farewell engaged =>
    cases closes with
    | rejected refused =>
      refine .refused refused ?_
      rcases engaged.sent_cases with base | said | ⟨_, -, left⟩
      · exact base ▸ List.prefix_append [_] [_]
      · exact said ▸ List.prefix_append [_] [_]
      · exact left ▸ List.prefix_rfl
    | drained greeted =>
      have bye : ∀ grace, (Goal.shutdown grace).said .initialized
          (nextNumber (Message.script l.greeting ds)) = [.bye] := by
        intro grace
        rw [Message.nextNumber_script]
        rfl
      rcases engaged.sent_cases with base | said | ⟨_, -, left⟩
      · exact beyond rfl greeted base (List.prefix_append _ _)
      · rw [bye] at said
        refine beyond rfl greeted said ?_
        exact (List.prefix_append_right_inj _).mpr (List.prefix_append [_] [_])
      · rw [bye] at left
        refine beyond rfl greeted left ?_
        rw [List.append_assoc]
        exact List.prefix_rfl

/-! ## Steps outside the courier -/

/-- A place is kept with all that belongs to it. -/
theorem Stands.move {courier : Courier} (h : l.Stands courier ds)
    (greeting : l'.greeting = l.greeting) (farewell : l'.farewell = l.farewell)
    (greeted : l.session.Greeted → l'.session.Greeted)
    (rejected : l.session.Rejected → l'.session.Rejected)
    (engaged : ∀ {n goal phase base}, l.session.Engaged n goal phase base →
      l'.session.Engaged n goal phase base)
    (idle : ∀ {phase sent}, l.session.Idle phase sent → l'.session.Idle phase sent)
    (free : l.session.Idle .launched [] →
      l'.session.dispatcher.handlers = l.session.dispatcher.handlers) :
    l'.Stands courier ds := by
  have closes : ∀ {phase sent}, l.Closes phase sent ds → l'.Closes phase sent ds := by
    intro phase sent closed
    cases closed with
    | rejected refused =>
      rw [← greeting]
      exact .rejected (rejected refused)
    | drained done =>
      rw [← greeting]
      exact .drained (greeted done)
  cases h with
  | starting rests none => exact .starting (idle rests) ((free rests).trans none)
  | subscribing on => exact .subscribing (engaged on)
  | greeting on => exact .greeting (greeting ▸ engaged on)
  | announcing done on => exact .announcing (greeted done) (greeting ▸ engaged on)
  | idle done rests => exact .idle (greeted done) (greeting ▸ idle rests)
  | closing done held on => exact .closing (greeted done) held (greeting ▸ engaged on)
  | opening done on => exact .opening (greeted done) (greeting ▸ engaged on)
  | ended close alone rests => exact .ended (closes close) (farewell.trans alone) (idle rests)
  | leaving close left on => exact .leaving (closes close) (farewell.trans left) (engaged on)

/-- What is ahead is not touched. -/
theorem Awaiting.move (h : l.Awaiting done ds items) (folder : l'.folder = l.folder)
    (language : l'.session.language = l.session.language)
    (farewell : l'.farewell = l.farewell) (ahead : l'.ahead = l.ahead) :
    l'.Awaiting done ds items := by
  refine ⟨farewell.trans h.alone, h.opens.move folder language, ?_⟩
  rw [ahead]
  exact h.queued

/-- Where the courier and the queue are not touched, only the session matters. -/
theorem Orderly.move (h : l.Orderly ds items) (follows : Follows l l')
    (stands : l'.Stands l.courier ds) (farewell : l'.farewell = l.farewell)
    (courier : l'.courier = l.courier) (queue : l'.queue = l.queue) : l'.Orderly ds items := by
  have ahead : l'.ahead = l.ahead := by rw [Lane.ahead, courier, queue, Lane.ahead]
  refine ⟨courier ▸ stands, ?_, fun on => ?_, fun ended => ?_⟩
  · obtain ⟨done, within, opens⟩ := h.opens
    exact ⟨done, within, opens.move follows.folder follows.language⟩
  · obtain ⟨done, waiting⟩ := h.awaiting (courier ▸ on)
    exact ⟨done, waiting.move follows.folder follows.language farewell ahead⟩
  · rcases h.drained (courier ▸ ended) with rejected | ⟨shut, whole⟩
    · exact .inl (follows.rejected rejected)
    · exact .inr ⟨follows.shut shut, whole.move follows.folder follows.language⟩

/-- A step of the session that leaves the dispatcher open keeps the order. -/
theorem Orderly.session (h : l.Orderly ds items) (named : l.Named) (a : Session.Action)
    (live : (l.session.step a).1.dispatcher.closed = false) :
    ({ l with session := (l.session.step a).1 } : Lane).Orderly ds items := by
  have follows : Follows l { l with session := (l.session.step a).1 } :=
    named.follows (.session a)
  refine h.move follows ?_ rfl rfl rfl
  refine h.stands.move rfl rfl follows.greeted follows.rejected (·.step a live) (·.step a live) ?_
  intro rests
  exact congrArg Session.View.handlers (rests.same_step a live).view

/-- Where the session only changes in what no call depends on, the order is kept. -/
theorem Orderly.of_same (h : l.Orderly ds items) (follows : Follows l l')
    (same : Session.Same l.session l'.session) (farewell : l'.farewell = l.farewell)
    (courier : l'.courier = l.courier) (queue : l'.queue = l.queue) : l'.Orderly ds items := by
  refine h.move follows ?_ farewell courier queue
  refine h.stands.move follows.greeting farewell follows.greeted follows.rejected
    (·.same same follows.settled) (·.same same) ?_
  intro _
  exact congrArg Session.View.handlers same.view

/-! ## Activations -/

/-- What is queued comes after all that is ahead. -/
theorem Orderly.push (h : l.Orderly ds items) (on : l.courier ≠ .ended) (item : Activation)
    {active : Option Path} {versions : List (Path × Int)} :
    ({ l with
      queue := l.queue ++ [item]
      active := active
      versions := versions } : Lane).Orderly ds (items ++ [item]) := by
  have longer : ({ l with
      queue := l.queue ++ [item]
      active := active
      versions := versions } : Lane).ahead = l.ahead ++ [item] := by
    unfold Lane.ahead
    cases l.courier <;> rfl
  refine ⟨h.stands.move rfl rfl id id id id fun _ => rfl, ?_, fun _ => ?_, fun ended => absurd ended on⟩
  · obtain ⟨done, within, opens⟩ := h.opens
    exact ⟨done, within.trans (List.prefix_append _ _), opens⟩
  · obtain ⟨done, waiting⟩ := h.awaiting on
    refine ⟨done, waiting.alone, waiting.opens, ?_⟩
    rw [longer, ← List.append_assoc, waiting.queued]

/-- An activation keeps the order, whether anything is queued or not. -/
theorem Orderly.activate (h : l.Orderly ds items) (named : l.Named) (path : Path)
    (text : String) :
    (l.activate path text).1.Orderly ds (items ++ newly (l.activate path text).2) := by
  have follows : Follows l (l.activate path text).1 := named.follows (.activate path text)
  rcases l.activate_cases path text with
    ⟨-, out⟩ | ⟨-, ⟨-, out⟩ | ⟨on, out⟩⟩ <;> rw [out] at follows ⊢
  · rw [newly, Option.toList_none, List.append_nil]
    exact h
  · rw [newly, List.append_nil]
    exact h.of_same follows (.refl _) rfl rfl rfl
  · exact h.push on _

/-! ## Calls of the courier -/

theorem Awaiting.orderly (h : l.Awaiting done ds items) (stands : l.Stands l.courier ds)
    (on : l.courier ≠ .ended) : l.Orderly ds items :=
  ⟨stands, ⟨done, ⟨_, h.queued⟩, h.opens⟩, fun _ => ⟨done, h⟩, fun ended => absurd ended on⟩

/-- The next document is opened. -/
theorem Orderly.open {queue : List Activation} {item : Activation} (named : l.Named)
    (queues : l.Queues items) (waiting : l.Awaiting done ds items) (ahead : l.ahead = item :: queue)
    (known : Convertible l.folder (items.map Activation.visit))
    (greeted : l.session.Greeted)
    (idle : l.session.Idle .initialized
      (Message.script l.greeting ds ++ Message.closing (Message.current none ds))) :
    ∃ es, ({ l with queue := queue }.open item).1.Orderly es items := by
  obtain ⟨-, uri, converts⟩ := waiting.next queues ahead known
  let d : Document := ⟨uri, l.session.language, item.version, item.text⟩
  have is : item.document l.folder l.session.language = .ok d :=
    Activation.document_eq_ok.mpr ⟨converts, rfl, rfl, rfl⟩
  have opens : { l with queue := queue }.open item =
      { l with queue := queue }.call (.openDocument d) .opening := by
    unfold Lane.open
    rw [converts]
  have stands : ({ l with queue := queue }.call (.openDocument d) .opening).1.Stands
      (.opening l.nextCall) (ds ++ [d]) := by
    refine .opening (named.greeted_begin _ greeted)
      (idle.begin rfl (named.fresh _ (Nat.le_refl _)) ?_ ?_)
    · intro result
      simp [Goal.opening, Opening.inPhase]
    · intro method subscribes
      cases subscribes
  have moved : ({ l with queue := queue }.call (.openDocument d) .opening).1.Awaiting
      (done ++ [item]) (ds ++ [d]) items := by
    have queued := waiting.queued
    rw [ahead, List.append_cons] at queued
    exact ⟨waiting.alone, waiting.opens.snoc is, queued⟩
  rw [opens]
  exact ⟨ds ++ [d], moved.orderly stands (by simp [Lane.call])⟩

/-- The next activation is carried out, from the document that is open. -/
theorem Orderly.switch {queue : List Activation} {item : Activation} (named : l.Named)
    (queues : l.Queues items) (waiting : l.Awaiting done ds items) (ahead : l.ahead = item :: queue)
    (known : Convertible l.folder (items.map Activation.visit))
    (greeted : l.session.Greeted)
    (idle : l.session.Idle .initialized (Message.script l.greeting ds)) :
    ∃ es, ({ l with queue := queue }.switch item).1.Orderly es items := by
  obtain ⟨previous, -⟩ := waiting.next queues ahead known
  have current := waiting.opens.current
  rw [← previous] at current
  cases before : item.previous with
  | none =>
    have first : Message.current none ds = none := by simpa [before] using current
    have switches : { l with queue := queue }.switch item = { l with queue := queue }.open item := by
      rw [Lane.switch, before]
    rw [switches]
    refine Orderly.open named queues waiting ahead known greeted ?_
    rw [first]
    simpa [Message.closing] using idle
  | some path =>
    -- The previous document was opened, so its path has a URI: the one that is open.
    rw [before, Option.map_some] at current
    obtain ⟨uri, held, converts⟩ := Option.map_eq_some_iff.mp current
    have switches : { l with queue := queue }.switch item =
        { l with queue := queue }.call (.closeDocument uri) (.closing · item) := by
      rw [Lane.switch, before]
      simp only [← converts]
    have stands : ({ l with queue := queue }.call (.closeDocument uri) (.closing · item)).1.Stands
        (.closing l.nextCall item) ds := by
      refine .closing (named.greeted_begin _ greeted) held
        (idle.begin rfl (named.fresh _ (Nat.le_refl _)) ?_ ?_)
      · intro result
        simp [Goal.opening, Opening.inPhase]
      · intro method subscribes
        cases subscribes
    have moved : ({ l with queue := queue }.call (.closeDocument uri) (.closing · item)).1.Awaiting
        done ds items := waiting.move rfl rfl rfl ahead.symm
    rw [switches]
    exact ⟨ds, moved.orderly stands (by simp [Lane.call])⟩

/-- The courier goes on from a place at which it waits for nothing. -/
theorem Orderly.takeNext (h : l.Orderly ds items) (named : l.Named) (queues : l.Queues items)
    (place : l.courier = .idle)
    (known : Convertible l.folder (items.map Activation.visit)) :
    ∃ es, l.takeNext.1.Orderly es items := by
  obtain ⟨done, waiting⟩ := h.awaiting (by simp [place])
  have stands := h.stands
  rw [place] at stands
  cases stands with
  | idle greeted idle =>
    unfold Lane.takeNext
    split
    · rename_i item rest queue
      have ahead : l.ahead = item :: rest := by simp [Lane.ahead, place, queue]
      exact Orderly.switch named queues waiting ahead known greeted idle
    · rename_i empty
      split
      · exact ⟨ds, h⟩
      · rename_i shut
        -- Nothing is ahead, so what has been carried out is everything.
        have queued := waiting.queued
        rw [Lane.ahead, place, empty, List.append_nil] at queued
        have whole : l.Opens ds items := queued ▸ waiting.opens
        exact ⟨ds, .ended (.drained greeted) waiting.alone idle, h.opens, fun on => absurd rfl on,
          fun _ => .inr ⟨Bool.eq_false_iff.mpr shut, whole⟩⟩

theorem Orderly.rest (waiting : l.Awaiting done ds items)
    (ahead : l.ahead = l.queue) (greeted : l.session.Greeted)
    (idle : l.session.Idle .initialized (Message.script l.greeting ds)) :
    ({ l with courier := .idle } : Lane).Orderly ds items := by
  have moved : ({ l with courier := .idle } : Lane).Awaiting done ds items :=
    waiting.move rfl rfl rfl ahead.symm
  exact moved.orderly (.idle greeted idle) (by simp)

/-- The courier goes on with the result of the call for which it waits. -/
theorem Orderly.proceed {n : Nat} {r : Except ClientError Json} (h : l.Orderly ds items)
    (named : l.Named) (queues : l.Queues items) (known : Convertible l.folder (items.map Activation.visit))
    (waits : Courier.call? l.courier = some n) (done : l.session.result? n = some r) :
    ∃ es, (l.proceed r).1.Orderly es items := by
  have new := named.fresh l.nextCall (Nat.le_refl _)
  have stands := h.stands
  have awaiting := h.awaiting
  generalize place : l.courier = courier at waits stands awaiting
  cases stands with
  | starting | idle | ended | leaving => cases waits
  | subscribing engaged =>
    obtain rfl := Option.some.inj waits
    obtain ⟨⟨v, rfl⟩, idle⟩ := engaged.finished_plain (by simp) done
    obtain ⟨carried, waiting⟩ := awaiting (by simp)
    have next : l.proceed (.ok v) = l.call (.handshake l.greeting) .greeting := by
      unfold Lane.proceed
      rw [place]
    have ahead : l.ahead = l.queue := by rw [Lane.ahead, place]
    have moved : (l.call (.handshake l.greeting) .greeting).1.Awaiting carried [] items :=
      waiting.move rfl rfl rfl ahead.symm
    have stands : (l.call (.handshake l.greeting) .greeting).1.Stands (.greeting l.nextCall) [] := by
      refine .greeting (idle.begin rfl new ?_ ?_)
      · intro result
        simp [Goal.opening, Opening.inPhase]
      · intro method subscribes
        cases subscribes
    rw [next]
    exact ⟨[], moved.orderly stands (by simp [Lane.call])⟩
  | greeting engaged =>
    obtain rfl := Option.some.inj waits
    obtain ⟨carried, waiting⟩ := awaiting (by simp)
    have ahead : l.ahead = l.queue := by rw [Lane.ahead, place]
    rcases engaged.finished_handshake done with ⟨⟨v, rfl⟩, idle⟩ | ⟨⟨e, rfl⟩, idle⟩
    · have next : l.proceed (.ok v) = l.call (.notify "initialized" (.obj [])) .announcing := by
        unfold Lane.proceed
        rw [place]
      -- The phase has changed, so the server has answered; the call is the second one, so
      -- its result is the one that `Greeted` speaks of.
      obtain ⟨c, hc, goal, -⟩ := engaged.call
      obtain rfl := named.handshake _ c l.greeting hc goal
      have greeted : l.session.Greeted :=
        ⟨engaged.acknowledged l.greeting rfl (by simp [idle.phase]), v, done⟩
      have moved : (l.call (.notify "initialized" (.obj [])) .announcing).1.Awaiting carried []
          items := waiting.move rfl rfl rfl ahead.symm
      have stands : (l.call (.notify "initialized" (.obj [])) .announcing).1.Stands
          (.announcing l.nextCall) [] := by
        refine .announcing (named.greeted_begin _ greeted) (idle.begin rfl new ?_ ?_)
        · intro result
          simp [Goal.opening]
        · intro method subscribes
          cases subscribes
      rw [next]
      exact ⟨[], moved.orderly stands (by simp [Lane.call])⟩
    · have next : (l.proceed (.error e)).1 = { l with courier := .ended, queue := [] } := by
        unfold Lane.proceed
        rw [place]
        rfl
      obtain ⟨c, hc, goal, -⟩ := engaged.call
      have result : c.result? = some (.error e) := by
        rw [Session.result?, hc] at done
        exact done
      have refused : l.session.Rejected := ⟨_, c, l.greeting, e, hc, goal, result⟩
      rw [next]
      exact ⟨[], .ended (.rejected refused) waiting.alone idle, h.opens, fun on => absurd rfl on,
        fun _ => .inl refused⟩
  | announcing greeted engaged =>
    obtain rfl := Option.some.inj waits
    obtain ⟨⟨v, rfl⟩, idle⟩ := engaged.finished_plain (by simp) done
    obtain ⟨carried, waiting⟩ := awaiting (by simp)
    have next : (l.proceed (.ok v)).1 = { l with courier := .idle } := by
      unfold Lane.proceed
      rw [place]
    rw [next]
    exact ⟨[], .rest waiting (by rw [Lane.ahead, place]) greeted idle⟩
  | @closing m item ds uri greeted held engaged =>
    obtain rfl := Option.some.inj waits
    obtain ⟨⟨v, rfl⟩, idle⟩ := engaged.finished_plain (by simp) done
    obtain ⟨carried, waiting⟩ := awaiting (by simp)
    have next : l.proceed (.ok v) = l.open item := by
      unfold Lane.proceed
      rw [place]
    have ahead : l.ahead = item :: l.queue := by rw [Lane.ahead, place]
    rw [next]
    refine Orderly.open named queues waiting ahead known greeted ?_
    rw [held]
    exact idle
  | @opening m ds d greeted engaged =>
    obtain rfl := Option.some.inj waits
    obtain ⟨⟨v, rfl⟩, idle⟩ := engaged.finished_plain (by simp) done
    obtain ⟨carried, waiting⟩ := awaiting (by simp)
    have next : (l.proceed (.ok v)).1 = { l with courier := .idle } := by
      unfold Lane.proceed
      rw [place]
    rw [next]
    refine ⟨ds ++ [d], .rest waiting (by rw [Lane.ahead, place]) greeted ?_⟩
    rw [Message.script_snoc]
    exact idle

/-- The courier goes on in order. -/
theorem Orderly.consume (h : l.Orderly ds items) (named : l.Named) (queues : l.Queues items)
    (known : Convertible l.folder (items.map Activation.visit)) :
    ∃ es, l.consume.1.Orderly es items := by
  unfold Lane.consume
  split
  · rename_i place
    obtain ⟨done, waiting⟩ := h.awaiting (by simp [place])
    have stands := h.stands
    rw [place] at stands
    cases stands with
    | starting idle free =>
      have ahead : l.ahead = l.queue := by rw [Lane.ahead, place]
      have moved : (l.call (.subscribe publishMethod) .subscribing).1.Awaiting done [] items :=
        waiting.move rfl rfl rfl ahead.symm
      have stands : (l.call (.subscribe publishMethod) .subscribing).1.Stands
          (.subscribing l.nextCall) [] := by
        refine .subscribing (idle.begin rfl (named.fresh _ (Nat.le_refl _)) ?_ fun _ _ => free)
        intro result
        simp [Goal.opening]
      exact ⟨[], moved.orderly stands (by simp [Lane.call])⟩
  · rename_i place
    exact h.takeNext named queues place known
  · exact ⟨ds, h⟩
  · split
    · rename_i result found
      obtain ⟨n, waits, done⟩ := Option.bind_eq_some_iff.mp found
      exact h.proceed named queues known waits done
    · exact ⟨ds, h⟩

/-! ## The end -/

/-- The end of the session begins only after the courier has ended. -/
theorem Orderly.bidFarewell (h : l.Orderly ds items) (named : l.Named) (grace : Nat) :
    (l.bidFarewell grace).Orderly ds items := by
  unfold Lane.bidFarewell
  split
  · rename_i ready
    obtain ⟨ended, none⟩ := ready
    have stands := h.stands
    rw [ended] at stands
    have follows : Follows l { l with
        session := l.session.begin l.nextCall (.shutdown grace)
        nextCall := l.nextCall + 1
        farewell := some l.nextCall } := named.follows_begin rfl rfl rfl id id
    have drained : l.session.Rejected ∨ l.accepting = false ∧ l.Opens ds items := h.drained ended
    refine ⟨?_, h.opens, fun on => absurd ended on, fun _ => drained.imp follows.rejected id⟩
    dsimp only
    rw [ended]
    cases stands with
    | @ended phase sent ds closes alone idle =>
      -- In both phases in which an open lane can end the call has something to do.
      have begins : ∀ result, (Goal.shutdown grace).opening phase ≠ .finish result := by
        intro result
        cases closes <;> simp [Goal.opening]
      have engaged := idle.begin rfl (named.fresh _ (Nat.le_refl _)) begins (by simp)
      cases closes with
      | rejected refused => exact .leaving (.rejected (follows.rejected refused)) rfl engaged
      | drained greeted => exact .leaving (.drained (follows.greeted greeted)) rfl engaged
    | leaving closes farewell engaged =>
      rw [none] at farewell
      cases farewell
  · exact h

/-- Every step of a lane that leaves its dispatcher open keeps the order. -/
theorem Orderly.step (h : l.Orderly ds items) (named : l.Named) (queues : l.Queues items)
    (a : Action) (live : (l.step a).1.session.dispatcher.closed = false)
    (known : Convertible l.folder (items.map Activation.visit)) :
    ∃ es, (l.step a).1.Orderly es (items ++ l.gained a) := by
  have follows := named.follows a
  have quietly : l.gained a = [] → (∃ es, (l.step a).1.Orderly es items) →
      ∃ es, (l.step a).1.Orderly es (items ++ l.gained a) := by
    intro none kept
    rw [none, List.append_nil]
    exact kept
  cases a with
  | activate path text => exact ⟨ds, h.activate named path text⟩
  | session a => exact quietly rfl ⟨ds, h.session named a live⟩
  | consume => exact quietly rfl (h.consume named queues known)
  | close => exact quietly rfl ⟨ds, h.of_same follows (.refl _) rfl rfl rfl⟩
  | bidFarewell grace => exact quietly rfl ⟨ds, h.bidFarewell named grace⟩
  | release => exact quietly rfl ⟨ds, h.of_same follows ⟨rfl, rfl, rfl⟩ rfl rfl rfl⟩

/-! ## Runs -/

/-- What was sent stays in order when nothing more is sent. -/
theorem Scripted.quietly (h : l.Scripted items) (named : l.Named) {a : Action}
    (sent : (l.step a).1.session.sent = l.session.sent) :
    (l.step a).1.Scripted (items ++ l.gained a) := by
  have follows := named.follows a
  cases h with
  | refused rejected said =>
    refine .refused (follows.rejected rejected) ?_
    rw [sent, follows.greeting]
    exact said
  | early said =>
    refine .early ?_
    rw [sent, follows.greeting]
    exact said
  | under greeted within opens said =>
    refine .under (follows.greeted greeted) (within.trans (List.prefix_append _ _))
      (opens.move follows.folder follows.language) ?_
    rw [sent, follows.greeting]
    exact said
  | beyond greeted ended shut opens said =>
    rw [gained_of_ended ended, List.append_nil]
    refine .beyond (follows.greeted greeted) (follows.ended ended) (follows.shut shut)
      (opens.move follows.folder follows.language) ?_
    rw [sent, follows.greeting]
    exact said

/-- What holds of a lane in which some activations were queued, whether its dispatcher is
open or not. -/
structure Holds (l : Lane) (items : List Activation) : Prop where
  named : l.Named
  queues : l.Queues items
  orderly : l.session.dispatcher.closed = false → ∃ ds, l.Orderly ds items
  scripted : l.Scripted items

/-- Every step keeps the order: while the dispatcher is open by what the courier does, and
afterwards because nothing is sent. -/
theorem Holds.step (h : l.Holds items) (a : Action)
    (known : Convertible l.folder ((items ++ l.gained a).map Activation.visit)) :
    (l.step a).1.Holds (items ++ l.gained a) := by
  have follows := h.named.follows a
  have named := h.named.step a
  have queues := h.queues.step a
  have orderly : (l.step a).1.session.dispatcher.closed = false →
      ∃ ds, (l.step a).1.Orderly ds (items ++ l.gained a) := by
    intro live
    -- A dispatcher that is open was open before, so the places still hold.
    have before : l.session.dispatcher.closed = false := by
      cases closed : l.session.dispatcher.closed with
      | false => rfl
      | true =>
        rw [follows.quiet.closed closed] at live
        cases live
    obtain ⟨ds, now⟩ := h.orderly before
    refine now.step h.named h.queues a live (known.subset ?_)
    rw [List.map_append]
    exact List.subset_append_left _ _
  refine ⟨named, queues, orderly, ?_⟩
  cases closed : (l.step a).1.session.dispatcher.closed with
  | true => exact h.scripted.quietly h.named (follows.quiet.sent closed)
  | false =>
    obtain ⟨ds, now⟩ := orderly closed
    exact now.scripted named queues (follows.folder ▸ known)

/-- A lane that has just been opened. -/
theorem holds_start (language : String) (limit : Nat) (process : Option Nat) (clock : Nat)
    (greeting : InitializeParams) (folder : Path) :
    (start (.launch language limit process clock) greeting folder).Holds [] := by
  refine ⟨named_start _ greeting folder rfl, queues_start _ greeting folder, fun _ => ⟨[], ?_⟩,
    .early List.nil_prefix⟩
  have idle : (Session.launch language limit process clock).Idle .launched [] := by
    refine ⟨fun m c hc => ?_, rfl, rfl, rfl, rfl, by simp [Session.launch]⟩
    cases hc
  have waiting : (start (.launch language limit process clock) greeting folder).Awaiting [] [] [] :=
    ⟨rfl, rfl, rfl⟩
  exact waiting.orderly (.starting idle rfl) (by simp [start])

/-! ## What was activated -/

variable {acts : List (Path × String)}

/-- What holds of a lane after some activations, whether its dispatcher is open or not: what
was queued are the visits that they lead to, as long as the courier was there. -/
structure Kept (l : Lane) (acts : List (Path × String)) : Prop where
  holds : ∃ items, l.Holds items ∧ items.map Activation.visit <+: visits none acts ∧
    (l.courier ≠ .ended → items.map Activation.visit = visits none acts)

theorem Kept.named (h : l.Kept acts) : l.Named := by
  obtain ⟨items, holds, -⟩ := h.holds
  exact holds.named

/-- One more activation is one more visit, unless its document is active. -/
theorem Queues.visits_snoc (h : l.Queues items)
    (all : items.map Activation.visit = visits none acts) (path : Path) (text : String) :
    visits none (acts ++ [(path, text)]) =
      items.map Activation.visit ++ if l.isActive path then [] else [(path, text)] := by
  rw [visits_append, ← all, map_path_visit, latest_eq_getLast?, Option.or_none, ← h.active]
  rfl

/-- What an activation queues is one more visit. -/
theorem Queues.visit_gained (h : l.Queues items)
    (all : items.map Activation.visit = visits none acts) (on : l.courier ≠ .ended) (a : Action) :
    (items ++ l.gained a).map Activation.visit = visits none (acts ++ a.activated) := by
  cases a with
  | activate path text =>
    rw [Action.activated, h.visits_snoc all, List.map_append, gained]
    rcases l.activate_cases path text with
      ⟨already, out⟩ | ⟨new, ⟨ended, -⟩ | ⟨-, out⟩⟩
    · rw [out, if_pos already]
      rfl
    · exact absurd ended on
    · rw [out, if_neg (by simp [new])]
      rfl
  | session | consume | close | bidFarewell | release =>
    rw [gained_of_quiet l rfl, List.append_nil]
    simpa [Action.activated] using all

/-- Every step keeps the order. -/
theorem Kept.step (h : l.Kept acts) (a : Action)
    (known : Convertible l.folder (acts ++ a.activated)) :
    (l.step a).1.Kept (acts ++ a.activated) := by
  obtain ⟨items, holds, within, all⟩ := h.holds
  have follows := holds.named.follows a
  have visited : (items ++ l.gained a).map Activation.visit <+: visits none (acts ++ a.activated) := by
    by_cases ended : l.courier = .ended
    · rw [gained_of_ended ended, List.append_nil]
      exact within.trans (visits_extend none acts a.activated)
    · have same := holds.queues.visit_gained (all ended) ended a
      exact ⟨[], by rw [same, List.append_nil]⟩
  refine ⟨items ++ l.gained a, holds.step a ?_, visited, fun on => ?_⟩
  · exact known.subset (List.Subset.trans visited.subset (visits_subset none _))
  · have before : l.courier ≠ .ended := fun ended => on (follows.ended ended)
    exact holds.queues.visit_gained (all before) before a

/-- A lane that has just been opened. -/
theorem kept_start (language : String) (limit : Nat) (process : Option Nat) (clock : Nat)
    (greeting : InitializeParams) (folder : Path) :
    (start (.launch language limit process clock) greeting folder).Kept [] :=
  ⟨[], holds_start language limit process clock greeting folder, List.prefix_rfl, fun _ => rfl⟩

/-- Documents of queued activations are shown. -/
theorem Opens.shows {ds : List Document} {done : List Activation} (h : l.Opens ds done)
    (within : done.map Activation.visit <+: visits none acts) : Shows l.folder ds acts := by
  unfold Shows
  rw [h.documents]
  have converted := within.map fun v => (Uri.ofPathIn l.folder v.1, v.2)
  rw [List.map_map] at converted
  exact converted

/-- What a lane has sent is in order. -/
theorem Kept.order (h : l.Kept acts) : l.InOrder acts := by
  obtain ⟨items, holds, within, -⟩ := h.holds
  cases holds.scripted with
  | refused _ sent => exact .inl sent
  | early sent => exact .inl (sent.trans (List.prefix_append [_] [_]))
  | under greeted some opens sent =>
    refine .inr ⟨greeted, _, opens.shows ((some.map _).trans within), ?_⟩
    exact sent.trans (List.prefix_append _ _)
  | beyond greeted _ _ opens sent => exact .inr ⟨greeted, _, opens.shows within, sent⟩

/-- After a handshake that has failed nothing but the order to exit can follow. -/
theorem Kept.rejected (h : l.Kept acts) (rejected : l.session.Rejected) :
    l.session.sent <+: [.hello l.greeting, .leave] := by
  rcases h.order with refused | ⟨greeted, -⟩
  · exact refused
  · exact absurd rejected (h.named.not_rejected greeted)

end Lane

end LanguageClient
