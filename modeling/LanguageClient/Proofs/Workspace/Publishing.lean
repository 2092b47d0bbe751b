import LanguageClient.Proofs.Workspace.Queueing
import LanguageClient.Proofs.Workspace.Subscription

/-!
# What is published

Whatever happens in a workspace, the dispatcher of each of its lanes takes in what the server
of that lane has written, message by message, and from the moment the handler is in place every
notification of diagnostics is handed on once, in this order.
-/

set_option autoImplicit false

namespace LanguageClient.Workspace

open Session (messagesIn)

variable {w : Workspace} {n : Nat} {l l' : Lane}

/-! ## One lane of a workspace -/

/-- What a deed lets be seen. -/
def shown (w : Workspace) : Deed → List Event
  | .activate launcher language path text => (w.activate launcher language path text).1.2
  | .leave grace => (w.step (.leave grace)).2
  | .depart => (w.step .depart).2
  | .advance milliseconds => (w.step (.advance milliseconds)).2
  | .session number a => (w.step (.lane number (.session a))).2
  | .consume number => (w.step (.lane number .consume)).2

/-- What is seen in the lane with a number. -/
def Event.sightingIn? (n : Nat) : Event → Option Sighting
  | .inLane m seen => if m = n then some seen else none
  | .opened .. => none

/-- What some deeds let be seen in a lane. -/
def seenIn (n : Nat) (w : Workspace) : List Deed → List Sighting
  | [] => []
  | d :: deeds => (w.shown d).filterMap (Event.sightingIn? n) ++ seenIn n (w.undergo d) deeds

/-- What a deed is for the session of a lane. -/
def Deed.onSession (n : Nat) : Deed → List Session.Deed
  | .session m a => if m = n then [.act a] else []
  | _ => []

/-- The messages that the dispatcher of a lane takes in. -/
def dispatchedIn (n : Nat) (w : Workspace) : List Deed → List Message
  | [] => []
  | d :: deeds =>
    (w.lanes[n]?.toList.flatMap fun l => l.session.dispatched (d.onSession n)) ++
      dispatchedIn n (w.undergo d) deeds

/-- What the server of a lane writes to its output, up to the end of it. -/
def heardIn (n : Nat) (deeds : List Deed) : Bytes :=
  Session.heard (deeds.flatMap (Deed.onSession n))

/-! ## One deed -/

/-- What a deed can do in a lane: a step of the session with all that it lets be seen, or
something that reports nothing. -/
inductive Fares (l : Lane) : Lane → List Session.Deed → List Sighting → Prop
  | acts (a : Session.Action) :
      Fares l (l.step (.session a)).1 [.act a] (l.step (.session a)).2
  | waits (milliseconds : Nat) {seen : List Sighting}
      (silent : seen.filter Sighting.isReport = []) :
      Fares l (l.step (.session (.advance milliseconds))).1 [] seen
  | aside {a : Lane.Action} {seen : List Sighting} (other : ∀ b, a ≠ .session b)
      (silent : seen.filter Sighting.isReport = []) : Fares l (l.step a).1 [] seen
  | rests {seen : List Sighting} (silent : seen.filter Sighting.isReport = []) :
      Fares l l [] seen

/-- More may be seen that is no report. -/
theorem Fares.append {seen more : List Sighting} (h : Fares l l' [] seen)
    (silent : more.filter Sighting.isReport = []) : Fares l l' [] (seen ++ more) := by
  have both : seen.filter Sighting.isReport = [] →
      (seen ++ more).filter Sighting.isReport = [] := by
    intro first
    rw [List.filter_append, first, silent]
    rfl
  cases h with
  | waits milliseconds first => exact .waits milliseconds (both first)
  | aside other first => exact .aside other (both first)
  | rests first => exact .rests (both first)

theorem sightings_map (n m : Nat) (seen : List Sighting) :
    (seen.map (Event.inLane m)).filterMap (Event.sightingIn? n) = if m = n then seen else [] := by
  by_cases same : m = n
  · subst same
    rw [if_pos rfl, List.filterMap_map]
    have self : (Event.sightingIn? m ∘ Event.inLane m) = some := by
      funext s
      exact if_pos rfl
    rw [self, List.filterMap_some]
  · rw [if_neg same, List.filterMap_map]
    apply List.filterMap_eq_nil_iff.mpr
    intro s _
    exact if_neg same

/-- A step of a lane that is not one of its session. -/
theorem fares_stepLane (hl : w.lanes[n]? = some l) (m : Nat) {a : Lane.Action}
    (other : ∀ b, a ≠ .session b) :
    ∃ l', (w.stepLane m a).1.lanes[n]? = some l' ∧
      Fares l l' [] ((w.stepLane m a).2.filterMap (Event.sightingIn? n)) := by
  unfold Workspace.stepLane
  split
  · exact ⟨l, hl, .rests rfl⟩
  · rename_i k hk
    refine ⟨_, lanes_setLane hl m (k.step a).1, ?_⟩
    rw [sightings_map]
    split
    · rename_i same
      subst same
      obtain rfl := Option.some.inj (hk.symm.trans hl)
      exact .aside other (Lane.reports_step other)
    · exact .rests rfl

theorem fares_session (hl : w.lanes[n]? = some l) (m : Nat) (a : Session.Action) :
    ∃ l', (w.stepLane m (.session a)).1.lanes[n]? = some l' ∧
      Fares l l' (if m = n then [.act a] else [])
        ((w.stepLane m (.session a)).2.filterMap (Event.sightingIn? n)) := by
  unfold Workspace.stepLane
  split
  · rename_i absent
    have different : m ≠ n := by
      rintro rfl
      cases absent.symm.trans hl
    rw [if_neg different]
    exact ⟨l, hl, .rests rfl⟩
  · rename_i k hk
    refine ⟨_, lanes_setLane hl m (k.step (.session a)).1, ?_⟩
    rw [sightings_map]
    by_cases same : m = n
    · subst same
      obtain rfl := Option.some.inj (hk.symm.trans hl)
      simp only [if_true]
      exact .acts a
    · simp only [if_neg same]
      exact .rests rfl

theorem fares_activateIn (hl : w.lanes[n]? = some l) (m : Nat) (path : Path) (text : String) :
    ∃ l', (w.activateIn m path text).1.1.lanes[n]? = some l' ∧
      Fares l l' [] ((w.activateIn m path text).1.2.filterMap (Event.sightingIn? n)) := by
  unfold Workspace.activateIn
  split
  · exact ⟨l, hl, .rests rfl⟩
  · rename_i k hk
    refine ⟨_, lanes_setLane hl m (k.activate path text).1, ?_⟩
    rw [sightings_map]
    split
    · rename_i same
      subst same
      obtain rfl := Option.some.inj (hk.symm.trans hl)
      have other : ∀ b, Lane.Action.activate path text ≠ .session b := by simp
      exact .aside (a := .activate path text) other (Lane.reports_step other)
    · exact .rests rfl

theorem shutdownRemarks_silent (result : Except ClientError Json) :
    (shutdownRemarks result).filter Sighting.isReport = [] := by
  cases result with
  | ok => rfl
  | error e =>
    have other : (Sighting.logged (.warn ("shutdown failed: " ++ e.message))).isReport = false := by
      apply isReport_warn
      simp
    simp [shutdownRemarks, other]

theorem fares_depart (hl : w.lanes[n]? = some l) :
    ∃ l', w.depart.1.lanes[n]? = some l' ∧
      Fares l l' [] (w.depart.2.filterMap (Event.sightingIn? n)) := by
  unfold Workspace.depart
  split
  · exact ⟨l, hl, .rests rfl⟩
  · exact ⟨l, hl, .rests rfl⟩
  · rename_i grace number rest _
    split
    · exact ⟨l, hl, .rests rfl⟩
    · rename_i k hk
      split
      · exact ⟨l, hl, .rests rfl⟩
      · rename_i a errand
        refine fares_stepLane hl number fun b same => ?_
        -- An errand is to close the queue or to shut the session down.
        subst same
        unfold Workspace.errand at errand
        split at errand
        · cases errand
        · split at errand
          · split at errand <;> cases errand
          · rename_i result
            cases ended : k.farewellResult? <;> simp [ended] at errand
      · rename_i result _
        have other : ∀ b, Lane.Action.release ≠ .session b := by simp
        have here : ({ w with leaving := some ⟨grace, rest⟩ } : Workspace).lanes[n]? = some l := hl
        obtain ⟨l', hl', fares⟩ := fares_stepLane here number other
        refine ⟨l', hl', ?_⟩
        dsimp only
        rw [List.filterMap_append, sightings_map]
        apply fares.append
        split
        · exact shutdownRemarks_silent result
        · rfl

/-- What a deed can do in a lane. -/
theorem fares_undergo (hl : w.lanes[n]? = some l) (d : Deed) :
    ∃ l', (w.undergo d).lanes[n]? = some l' ∧
      Fares l l' (d.onSession n) ((w.shown d).filterMap (Event.sightingIn? n)) := by
  cases d with
  | activate launcher language path text =>
    simp only [undergo, shown, Deed.onSession]
    rcases activate_opens launcher w language path text with
      ⟨m, -, out⟩ | ⟨-, ⟨e, -, out⟩ | ⟨server, -, out⟩⟩ <;> rw [out]
    · exact fares_activateIn hl m path text
    · exact ⟨l, hl, .rests rfl⟩
    · exact fares_activateIn (lanes_openLane hl language server) _ path text
  | leave grace =>
    refine ⟨l, ?_, .rests rfl⟩
    simp only [undergo, step, Workspace.leave]
    split <;> exact hl
  | depart => exact fares_depart hl
  | advance milliseconds =>
    refine ⟨_, ?_, .waits milliseconds rfl⟩
    simp only [undergo, step, Workspace.advance, List.getElem?_map, hl, Option.map_some]
  | session number a => exact fares_session hl number a
  | consume number => exact fares_stepLane hl number (by simp)

/-! ## What a deed comes to -/

theorem Fares.tuned {own : List Session.Deed} {seen : List Sighting} (h : Fares l l' own seen)
    (tuned : l.Tuned) : l'.Tuned ∧ (l.Subscribed → l'.Subscribed) := by
  cases h with
  | acts a => exact tuned.step (.session a)
  | waits milliseconds => exact tuned.step _
  | aside => exact tuned.step _
  | rests => exact ⟨tuned, id⟩

/-- Behind the registration of the handler, what is reported is what is taken in. -/
theorem Fares.reports {own : List Session.Deed} {seen : List Sighting} (h : Fares l l' own seen)
    (subscribed : l.Subscribed) :
    seen.filter Sighting.isReport = (l.session.dispatched own).filterMap Message.report? := by
  cases h with
  | acts a =>
    have one : l.session.dispatched [.act a] = l.session.took (.act a) := List.append_nil _
    rw [one]
    exact Session.reports_step subscribed a
  | waits _ silent => exact silent
  | aside _ silent => exact silent
  | rests silent => exact silent

/-- The session goes on as it does by what the deed is for it, and by deeds that have nothing
to do with the server's output. -/
theorem Fares.session {own : List Session.Deed} {seen : List Sighting} (h : Fares l l' own seen) :
    ∃ deeds, l'.session = l.session.through deeds ∧
      l.session.dispatched deeds = l.session.dispatched own ∧
      (deeds = own ∨ own = [] ∧ ∀ d ∈ deeds, d.isSilent = true) := by
  have silently : ∀ d : Session.Deed, d ≠ .act .deliver →
      l.session.dispatched [d] = l.session.dispatched [] := by
    intro d other
    simp [Session.dispatched, Session.took_of_ne_deliver _ other]
  cases h with
  | acts a => exact ⟨[.act a], rfl, rfl, .inl rfl⟩
  | waits milliseconds =>
    refine ⟨[.act (.advance milliseconds)], rfl, silently _ (by simp), .inr ⟨rfl, ?_⟩⟩
    simp [Session.Deed.isSilent, Session.Action.isOutput]
  | rests => exact ⟨[], rfl, rfl, .inl rfl⟩
  | @aside a _ other =>
    have step := Lane.stepped l a
    generalize (l.step a).1 = l' at step ⊢
    cases step with
    | session b => exact absurd rfl (other b)
    | released =>
      exact ⟨[.release], rfl, silently _ (by simp), .inr ⟨rfl, by simp [Session.Deed.isSilent]⟩⟩
    | activated | aside => exact ⟨[], rfl, rfl, .inl rfl⟩
    | @called _ goal =>
      refine ⟨[.begin l.nextCall goal], rfl, silently _ (by simp), .inr ⟨rfl, ?_⟩⟩
      simp [Session.Deed.isSilent]

/-! ## Runs -/

theorem through_append (w : Workspace) (xs ys : List Deed) :
    w.through (xs ++ ys) = (w.through xs).through ys := by
  simp [through]

/-- A lane whose handler is in place keeps it, and reports what it takes in. -/
theorem reports_through (hl : w.lanes[n]? = some l) (tuned : l.Tuned) (deeds : List Deed) :
    ∃ l', (w.through deeds).lanes[n]? = some l' ∧ l'.Tuned ∧ (l.Subscribed → l'.Subscribed ∧
      (seenIn n w deeds).filter Sighting.isReport =
        (dispatchedIn n w deeds).filterMap Message.report?) := by
  induction deeds generalizing w l with
  | nil => exact ⟨l, hl, tuned, fun subscribed => ⟨subscribed, rfl⟩⟩
  | cons d deeds ih =>
    obtain ⟨mid, hmid, fares⟩ := fares_undergo hl d
    obtain ⟨midTuned, kept⟩ := fares.tuned tuned
    obtain ⟨l', hl', tuned', later⟩ := ih hmid midTuned
    refine ⟨l', hl', tuned', fun subscribed => ?_⟩
    obtain ⟨subscribed', reports⟩ := later (kept subscribed)
    refine ⟨subscribed', ?_⟩
    have here : (w.lanes[n]?.toList.flatMap fun l => l.session.dispatched (d.onSession n)) =
        l.session.dispatched (d.onSession n) := by simp [hl]
    rw [seenIn, dispatchedIn, List.filter_append, List.filterMap_append, here,
      fares.reports subscribed, reports]

/-- The session of a lane goes on by deeds in which its dispatcher takes in what it does in the
workspace, and in which as much is heard of the server. -/
theorem session_through (hl : w.lanes[n]? = some l) (deeds : List Deed) :
    ∃ l' own, (w.through deeds).lanes[n]? = some l' ∧ l'.session = l.session.through own ∧
      l.session.dispatched own = dispatchedIn n w deeds ∧
      ∀ more, Session.heard (own ++ more) =
        Session.heard (deeds.flatMap (Deed.onSession n) ++ more) := by
  induction deeds generalizing w l with
  | nil => exact ⟨l, [], hl, rfl, rfl, fun _ => rfl⟩
  | cons d deeds ih =>
    obtain ⟨mid, hmid, fares⟩ := fares_undergo hl d
    obtain ⟨first, goes, takes, same⟩ := fares.session
    obtain ⟨l', own, hl', goesOn, takesIn, hears⟩ := ih hmid
    refine ⟨l', first ++ own, hl', ?_, ?_, fun more => ?_⟩
    · rw [goesOn, goes, Session.through_append]
    · have here : (w.lanes[n]?.toList.flatMap fun l => l.session.dispatched (d.onSession n)) =
          l.session.dispatched (d.onSession n) := by simp [hl]
      rw [Session.dispatched_append, takes, ← goes, takesIn, dispatchedIn, here]
    · rw [List.flatMap_cons, List.append_assoc, List.append_assoc]
      rcases same with rfl | ⟨none, silent⟩
      · exact Session.heard_congr _ (hears more)
      · rw [none, List.nil_append, Session.heard_of_silent silent, hears more]

/-- The lane that the first activation of a language opens. -/
theorem opened_activate {launcher : Launcher} {language : String} {server : Server}
    (absent : w.registered.find? language = none) (launches : launcher language = .ok server)
    (path : Path) (text : String) :
    ∃ l, (w.undergo (.activate launcher language path text)).lanes[w.lanes.length]? = some l ∧
      l.Tuned ∧ l.session = .launch language server.limit server.process w.clock := by
  let first : Lane := .start (.launch language server.limit server.process w.clock) w.greeting
    w.folder
  have open_ : (w.openLane language server).lanes[w.lanes.length]? = some first :=
    List.getElem?_concat_length
  have same : (first.activate path text).1.session = first.session := by
    rcases first.activate_cases path text with ⟨-, out⟩ | ⟨-, ⟨-, out⟩ | ⟨-, out⟩⟩ <;> rw [out]
  refine ⟨(first.activate path text).1, ?_, ?_, same⟩
  · have set := lanes_setLane open_ w.lanes.length (first.activate path text).1
    rw [if_pos rfl] at set
    simp only [undergo, Workspace.activate, absent, launches, activateIn_of_lane open_]
    exact set
  · exact ((Lane.tuned_start _ _ _ _ _ _).step (.activate path text)).1

/-- Messages are delivered.  While a session is held, its dispatcher has at every moment taken
in the first of all messages that the server's output holds up to its end or the first fault,
each once and in their order: all that came when none waits, and all that will ever come when
it has seen the end.  This is so in every lane of a workspace too, and the handler of a lane is
in place before anything is sent.  From then on each notification of diagnostics that is taken
in leads to one thing seen, what was published or a warning that it is malformed, in their
order and whatever else happens. -/
theorem diagnostics_delivered :
    (∀ (language : String) (limit : Nat) (process : Option Nat) (clock : Nat)
      (deeds more : List Session.Deed),
      let s := Session.launch language limit process clock
      (s.through deeds).released = false →
        s.dispatched deeds <+: messagesIn (Session.heard (deeds ++ more)) ∧
        ((s.through deeds).inbound = [] →
          s.dispatched deeds = messagesIn (Session.heard deeds)) ∧
        ((s.through deeds).flow = .noticed →
          s.dispatched deeds = messagesIn (Session.heard (deeds ++ more)))) ∧
    (∀ (w : Workspace) (launcher : Launcher) (language : String) (server : Server) (path : Path)
      (text : String), w.registered.find? language = none → launcher language = .ok server →
      ∀ past future : List Deed,
        let n := w.lanes.length
        let begun := w.undergo (.activate launcher language path text)
        ∃ l l', (begun.through past).lanes[n]? = some l ∧
          (begun.through (past ++ future)).lanes[n]? = some l' ∧
          (l.session.sent ≠ [] → l.Subscribed) ∧
          (l.Subscribed → l'.Subscribed ∧
            (seenIn n (begun.through past) future).filter Sighting.isReport =
              (dispatchedIn n (begun.through past) future).filterMap Message.report?) ∧
          (l.session.released = false →
            dispatchedIn n begun past <+: messagesIn (heardIn n (past ++ future)) ∧
            (l.session.inbound = [] → dispatchedIn n begun past = messagesIn (heardIn n past)) ∧
            (l.session.flow = .noticed →
              dispatchedIn n begun past = messagesIn (heardIn n (past ++ future))))) := by
  constructor
  · exact fun language limit process clock deeds more held =>
      Session.dispatched_launch language limit process clock deeds more held
  · intro w launcher language server path text absent launches past future n begun
    obtain ⟨first, hfirst, tuned, launched⟩ := opened_activate absent launches path text
    obtain ⟨l, hl, midTuned, -⟩ := reports_through hfirst tuned past
    obtain ⟨l', hl', -, reports⟩ := reports_through hl midTuned future
    refine ⟨l, l', hl, ?_, midTuned.subscribed, reports, fun held => ?_⟩
    · rw [through_append]
      exact hl'
    · obtain ⟨k, own, hk, goes, takes, hears⟩ := session_through hfirst past
      obtain rfl : k = l := Option.some.inj (hk.symm.trans hl)
      rw [launched] at goes takes
      rw [goes] at held ⊢
      have whole : Session.heard (own ++ future.flatMap (Deed.onSession n)) =
          heardIn n (past ++ future) := by
        rw [hears, heardIn, List.flatMap_append]
      have sofar : Session.heard own = heardIn n past := by
        have none := hears []
        rw [List.append_nil, List.append_nil] at none
        exact none
      rw [← whole, ← sofar, ← takes]
      exact Session.dispatched_launch _ _ _ _ own _ held

/-- The server publishes twice, once malformed; the dispatcher is closed before it takes this
in, and sees the end afterwards. -/
def publishing : List Deed :=
  [.session 0 (.serverWrites (Message.encode (.notification publishMethod
      (.obj [("diagnostics", .arr []), ("uri", .str "file:///a.rs")])))),
    .session 0 (.serverWrites (Message.encode (.notification publishMethod .null))),
    .session 0 .processExits, .session 0 .serve, .session 0 .deliver, .session 0 .deliver,
    .session 0 .serverCloses, .session 0 .deliver]

theorem diagnostics_delivered_closed :
    let begun := (Workspace.create 1 (.ofString "/")).undergo
      (.activate (fun _ => .ok ⟨1000, some 7⟩) "rust" (.ofString "/a.rs") "fn")
    let past : List Deed := [.consume 0, .session 0 (.resume 0), .session 0 .serve]
    let deeds : List Session.Deed :=
      [.act (.serverWrites (Message.encode (.response 1 (.ok .null)))), .act .deliver]
    (Session.launch "rust" 1000 none 0).dispatched deeds = messagesIn (Session.heard deeds) ∧
      (begun.through (past ++ publishing)).lanes[0]?.map (·.session.dispatcher.closed) =
        some true ∧
      dispatchedIn 0 begun (past ++ publishing) =
        messagesIn (heardIn 0 (past ++ publishing ++ [.consume 0])) ∧
      (seenIn 0 (begun.through past) publishing).filter Sighting.isReport =
        [.published ⟨"file:///a.rs", none, []⟩, .logged malformedPublication] := by
  intro begun past deeds
  obtain ⟨sessions, lanes⟩ := diagnostics_delivered
  obtain ⟨-, whole, -⟩ := sessions "rust" 1000 none 0 deeds [] (by decide +kernel)
  have opened := lanes (.create 1 (.ofString "/")) (fun _ => .ok ⟨1000, some 7⟩) "rust"
    ⟨1000, some 7⟩ (.ofString "/a.rs") "fn" rfl rfl
  have subscribed : (begun.through past).lanes[0]?.any (decide ·.Subscribed) = true := by
    decide +kernel
  have stands : (begun.through (past ++ publishing)).lanes[0]?.any
      (fun l => !l.session.released && l.session.flow = .noticed) = true := by decide +kernel
  have takes : (dispatchedIn 0 (begun.through past) publishing).filterMap Message.report? =
      [.published ⟨"file:///a.rs", none, []⟩, .logged malformedPublication] := by decide +kernel
  refine ⟨whole (by decide +kernel), by decide +kernel, ?_, ?_⟩
  · obtain ⟨l, _, hl, -, -, -, delivered⟩ := opened (past ++ publishing) [.consume 0]
    have here : (begun.through (past ++ publishing)).lanes[0]? = some l := hl
    rw [here, Option.any_some, Bool.and_eq_true, Bool.not_eq_true', decide_eq_true_iff] at stands
    exact (delivered stands.1).2.2 stands.2
  · obtain ⟨l, _, hl, -, -, reports, -⟩ := opened past publishing
    have here : (begun.through past).lanes[0]? = some l := hl
    rw [here, Option.any_some, decide_eq_true_iff] at subscribed
    exact (reports subscribed).2.trans takes

end LanguageClient.Workspace
