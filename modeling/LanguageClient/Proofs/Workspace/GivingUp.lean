import LanguageClient.Proofs.Session.Documents
import LanguageClient.Proofs.Workspace.Routine
import LanguageClient.Proofs.Workspace.Versions

/-!
# What a failure does to the courier

The switch to a document fails when the server is gone: the dispatcher refuses it, or the
gate of a session that has exited.  After a refusal of the dispatcher, as after a handshake
that has failed, the courier gives up and every further activation is refused; the gate it
does not take for the end, and activations are queued of which the server gets nothing.
-/

set_option autoImplicit false

namespace LanguageClient

namespace Lane

variable {l l' : Lane} {e : ClientError}

/-! ## Failures -/

/-- Whether the courier is carrying out an activation. -/
def Courier.switches : Courier → Bool
  | .closing .. | .opening _ => true
  | .starting | .subscribing _ | .greeting _ | .announcing _ | .idle | .ended => false

/-- The error of the call for which the courier waits, once it has failed. -/
def failure? (l : Lane) : Option ClientError :=
  match (Courier.call? l.courier).bind l.session.result? with
  | some (.error e) => some e
  | some (.ok _) | none => none

theorem failure?_eq_some (failed : l.failure? = some e) :
    ∃ n, Courier.call? l.courier = some n ∧ l.session.result? n = some (.error e) := by
  unfold failure? at failed
  split at failed
  · rename_i found
    obtain rfl := Option.some.inj failed
    exact Option.bind_eq_some_iff.mp found
  all_goals cases failed

theorem consume_of_failure (failed : l.failure? = some e) :
    l.consume = l.proceed (.error e) := by
  obtain ⟨n, waits, result⟩ := failure?_eq_some failed
  have found : (Courier.call? l.courier).bind l.session.result? = some (.error e) := by
    rw [waits, Option.bind_some, result]
  unfold consume
  cases at_ : l.courier with
  | starting | idle | ended =>
    rw [at_] at waits
    cases waits
  | subscribing | greeting | announcing | closing | opening =>
    rw [at_] at found
    simp only [found]

/-- A switch that has failed is reported to the log, and the error decides on the rest. -/
theorem consume_of_failed_switch (switches : Courier.switches l.courier = true)
    (failed : l.failure? = some e) : l.consume = l.fail e := by
  rw [consume_of_failure failed]
  unfold proceed
  cases at_ : l.courier with
  | closing | opening => rfl
  | starting | subscribing | greeting | announcing | idle | ended =>
    rw [at_] at switches
    cases switches

theorem ended_of_failed_greeting (greets : Courier.switches l.courier = false)
    (failed : l.failure? = some e) : l.consume.1.courier = .ended := by
  obtain ⟨n, waits, -⟩ := failure?_eq_some failed
  rw [consume_of_failure failed]
  unfold proceed
  cases at_ : l.courier with
  | subscribing | greeting | announcing => rfl
  | starting | idle | ended =>
    rw [at_] at waits
    cases waits
  | closing | opening =>
    rw [at_] at greets
    cases greets

theorem fail_terminated (l : Lane) : (l.fail .sessionTerminated).1.courier = .ended := by
  rw [fail, if_pos rfl]
  rfl

theorem fail_other (l : Lane) (other : e ≠ .sessionTerminated) :
    (l.fail e).1 = { l with courier := .idle } := by
  rw [fail, if_neg other]

/-- A path without a URI is no sign of the end. -/
theorem ofPathIn_ne_terminated {folder path : Path} (failed : Uri.ofPathIn folder path = .error e) :
    e ≠ .sessionTerminated := by
  unfold Uri.ofPathIn at failed
  dsimp only at failed
  split at failed
  · cases failed
  · rw [← Except.error.inj failed]
    simp

/-! ## Lanes with a session whose end nobody asks for -/

/-- What there is in a session at each place of the courier. -/
inductive Abides (s : Session) : Courier → Prop
  | starting : Abides s .starting
  | subscribing {n : Nat} : Abides s (.subscribing n)
  | greeting {n : Nat} {c : Call} {params : InitializeParams} (call : s.call? n = some c)
      (goal : c.goal = .handshake params) : Abides s (.greeting n)
  | announcing {n : Nat} (past : s.phase ≠ .launched) : Abides s (.announcing n)
  | idle (past : s.phase ≠ .launched) : Abides s .idle
  | closing {n : Nat} {next : Activation} (past : s.phase ≠ .launched) (call : s.Switching n) :
      Abides s (.closing n next)
  | opening {n : Nat} (past : s.phase ≠ .launched) (call : s.Switching n) : Abides s (.opening n)
  | ended : Abides s .ended

theorem Abides.step {s : Session} {courier : Courier} (h : Abides s courier) (lively : s.Lively)
    (tended : s.Tended) (a : Session.Action) : Abides (s.step a).1 courier := by
  have later : s.phase ≠ .launched → (s.step a).1.phase ≠ .launched := fun past =>
    Session.past_undergo past (.act a)
  cases h with
  | starting => exact .starting
  | subscribing => exact .subscribing
  | greeting call goal =>
    obtain ⟨c', found, evolves⟩ := Session.evolves_undergo lively.accounted (.act a) call
    exact .greeting found (evolves.goal.trans goal)
  | announcing past => exact .announcing (later past)
  | idle past => exact .idle (later past)
  | closing past call =>
    exact .closing (later past) (call.undergo lively.accounted tended past (.act a))
  | opening past call =>
    exact .opening (later past) (call.undergo lively.accounted tended past (.act a))
  | ended => exact .ended

/-- What holds of a lane as long as it is not left. -/
structure Attentive (l : Lane) : Prop where
  sound : l.Sound
  tended : l.session.Tended
  place : Abides l.session l.courier
  accepting : l.accepting = true

theorem attentive_start (language : String) (limit : Nat) (process : Option Nat) (clock : Nat)
    (greeting : InitializeParams) (folder : Path) :
    (start (.launch language limit process clock) greeting folder).Attentive :=
  ⟨sound_start language limit process clock greeting folder,
    Session.tended_launch language limit process clock, .starting, rfl⟩

/-- What the courier keeps when it goes on. -/
structure Keeps (l : Lane) : Prop where
  tended : l.session.Tended
  place : Abides l.session l.courier

section Courier

variable {queue : List Activation} {goal : Goal} {courier : Nat → Courier}

theorem Attentive.call (h : l.Attentive) (mild : goal.ends = false)
    (place : Abides (l.session.begin l.nextCall goal) (courier l.nextCall)) :
    ({ l with queue := queue }.call goal courier).1.Keeps := by
  refine ⟨?_, place⟩
  refine h.tended.undergo h.sound.lively.accounted (d := .begin l.nextCall goal) ?_
  intro n other same
  cases same
  exact mild

theorem Attentive.fail (h : l.Attentive) (past : l.session.phase ≠ .launched) (e : ClientError) :
    ({ l with queue := queue }.fail e).1.Keeps := by
  unfold Lane.fail
  split
  · exact ⟨h.tended, .ended⟩
  · exact ⟨h.tended, .idle past⟩

theorem Attentive.open (h : l.Attentive) (past : l.session.phase ≠ .launched) (item : Activation) :
    ({ l with queue := queue }.open item).1.Keeps := by
  have new := h.sound.named.fresh l.nextCall (Nat.le_refl _)
  unfold Lane.open
  split
  · exact h.fail past _
  · exact h.call rfl (.opening past (Session.switching_begin new rfl))

theorem Attentive.switch (h : l.Attentive) (past : l.session.phase ≠ .launched)
    (item : Activation) : ({ l with queue := queue }.switch item).1.Keeps := by
  have new := h.sound.named.fresh l.nextCall (Nat.le_refl _)
  unfold Lane.switch
  split
  · exact h.open past item
  · split
    · exact h.fail past _
    · exact h.call rfl (.closing past (Session.switching_begin new rfl))

theorem Attentive.takeNext (h : l.Attentive) (past : l.session.phase ≠ .launched) :
    l.takeNext.1.Keeps := by
  unfold Lane.takeNext
  split
  · exact h.switch past _
  · split
    · exact ⟨h.tended, h.place⟩
    · exact ⟨h.tended, .ended⟩

theorem Attentive.proceed {n : Nat} {r : Except ClientError Json} (h : l.Attentive)
    (waits : Courier.call? l.courier = some n) (done : l.session.result? n = some r) :
    (l.proceed r).1.Keeps := by
  have new := h.sound.named.fresh l.nextCall (Nat.le_refl _)
  have place := h.place
  have gone : ∀ record, (l.giveUp record).1.Keeps := fun record => ⟨h.tended, .ended⟩
  unfold Lane.proceed
  generalize at_ : l.courier = courier at place waits
  cases place with
  | starting | idle | ended => cases waits
  | subscribing =>
    cases r with
    | error e => exact gone _
    | ok v =>
      refine h.call rfl (.greeting (c := .start (.handshake l.greeting)) ?_ rfl)
      rw [Session.call?_begin new, if_pos rfl]
  | greeting call goal =>
    obtain rfl := Option.some.inj waits
    cases r with
    | error e => exact gone _
    | ok v => exact h.call rfl (.announcing (h.tended.greeted _ _ _ v call goal done))
  | announcing past =>
    cases r with
    | error e => exact gone _
    | ok v => exact ⟨h.tended, .idle past⟩
  | closing past =>
    cases r with
    | error e => exact h.fail past e
    | ok v => exact h.open past _
  | opening past =>
    cases r with
    | error e => exact h.fail past e
    | ok v => exact ⟨h.tended, .idle past⟩

theorem Attentive.consume (h : l.Attentive) : l.consume.1.Keeps := by
  unfold Lane.consume
  split
  · exact h.call rfl .subscribing
  · rename_i at_
    have place := h.place
    rw [at_] at place
    cases place with
    | idle past => exact h.takeNext past
  · exact ⟨h.tended, h.place⟩
  · split
    · rename_i result found
      obtain ⟨n, waits, done⟩ := Option.bind_eq_some_iff.mp found
      exact h.proceed waits done
    · exact ⟨h.tended, h.place⟩

end Courier

theorem same_activate (l : Lane) (path : Path) (text : String) :
    (l.activate path text).1.session = l.session ∧
      (l.activate path text).1.courier = l.courier := by
  rcases l.activate_cases path text with
    ⟨-, out⟩ | ⟨-, ⟨-, out⟩ | ⟨-, out⟩⟩ <;> rw [out] <;> exact ⟨rfl, rfl⟩

theorem Attentive.step (h : l.Attentive) {a : Action} (routine : a.isRoutine = true) :
    (l.step a).1.Attentive := by
  have sound : (l.step a).1.Sound := h.sound.step a fun released => by
    rw [released] at routine
    cases routine
  have accepting : (l.step a).1.accepting = true := by
    refine (l.accepting_step ?_).trans h.accepting
    rintro rfl
    cases routine
  cases a with
  | session a =>
    exact ⟨sound, h.tended.undergo h.sound.lively.accounted (d := .act a) (by simp),
      h.place.step h.sound.lively h.tended a, accepting⟩
  | activate path text =>
    refine ⟨sound, ?_, ?_, accepting⟩ <;> simp only [Lane.step, same_activate]
    · exact h.tended
    · exact h.place
  | consume => exact ⟨sound, h.consume.tended, h.consume.place, accepting⟩
  | close | bidFarewell | release => cases routine

theorem Begun.attentive (h : l.Begun) : l.Attentive :=
  h.keeps (fun _ _ routine attentive => attentive.step routine) attentive_start

/-- A switch fails because the dispatcher is closed, or because the session has exited. -/
theorem Attentive.failure (h : l.Attentive) (switches : Courier.switches l.courier = true)
    (failed : l.failure? = some e) :
    e = .sessionTerminated ∧ l.session.dispatcher.closed = true ∨
      ∃ operation, e = .invalidState operation .exited ∧ l.session.phase = .exited := by
  obtain ⟨n, waits, result⟩ := failure?_eq_some failed
  have place := h.place
  generalize l.courier = courier at place waits switches
  cases place with
  | closing past call | opening past call =>
    obtain rfl := Option.some.inj waits
    exact call.error result
  | starting | subscribing | greeting | announcing | idle | ended => cases switches

/-! ## Lanes whose session has exited -/

/-- What a courier that does not end is occupied with after the exit. -/
inductive Idles (s : Session) : Courier → Prop
  | idle : Idles s .idle
  | closing {n : Nat} {next : Activation} (call : s.Late n) : Idles s (.closing n next)
  | opening {n : Nat} (call : s.Late n) : Idles s (.opening n)

/-- A lane whose session has exited and whose courier goes on. -/
structure Unaware (l : Lane) : Prop where
  attentive : l.Attentive
  exited : l.session.phase = .exited
  place : Idles l.session l.courier

theorem idles_fail (l : Lane) (other : e ≠ .sessionTerminated) :
    Idles (l.fail e).1.session (l.fail e).1.courier := by
  rw [fail_other l other]
  exact .idle

theorem idles_open (new : l.session.call? l.nextCall = none) (item : Activation) :
    Idles (l.open item).1.session (l.open item).1.courier := by
  unfold Lane.open
  split
  · rename_i failed
    exact idles_fail l (ofPathIn_ne_terminated failed)
  · exact .opening (Session.late_begin new rfl)

theorem idles_switch (new : l.session.call? l.nextCall = none) (item : Activation) :
    Idles (l.switch item).1.session (l.switch item).1.courier := by
  unfold switch
  split
  · exact idles_open new item
  · split
    · rename_i failed
      exact idles_fail l (ofPathIn_ne_terminated failed)
    · exact .closing (Session.late_begin new rfl)

theorem Unaware.proceed {n : Nat} {r : Except ClientError Json} (h : l.Unaware)
    (waits : Courier.call? l.courier = some n) (done : l.session.result? n = some r) :
    Idles (l.proceed r).1.session (l.proceed r).1.courier := by
  have place := h.place
  unfold Lane.proceed
  generalize at_ : l.courier = courier at place waits
  cases place with
  | idle => cases waits
  | closing call | opening call =>
    obtain rfl := Option.some.inj waits
    obtain ⟨operation, rfl⟩ := call.result done
    exact idles_fail l (by simp)

/-- The courier finds the gate, goes back to the queue and takes the next activation. -/
theorem Unaware.consume (h : l.Unaware) : Idles l.consume.1.session l.consume.1.courier := by
  have new := h.attentive.sound.named.fresh l.nextCall (Nat.le_refl _)
  have place := h.place
  unfold Lane.consume
  split
  · rename_i at_
    rw [at_] at place
    cases place
  · rename_i at_
    unfold takeNext
    split
    · rename_i item rest _
      exact idles_switch (l := { l with queue := rest }) new item
    · rw [if_pos h.attentive.accepting]
      exact place
  · rename_i at_
    rw [at_] at place
    cases place
  · split
    · rename_i result found
      obtain ⟨n, waits, done⟩ := Option.bind_eq_some_iff.mp found
      exact h.proceed waits done
    · exact place

theorem Unaware.step (h : l.Unaware) {a : Action} (routine : a.isRoutine = true) :
    (l.step a).1.Unaware := by
  have exited : (l.step a).1.session.phase = .exited := by
    obtain ⟨deeds, same⟩ := through_step l a
    rw [same]
    exact Session.exited_through h.exited deeds
  refine ⟨h.attentive.step routine, exited, ?_⟩
  cases a with
  | session a =>
    have accounted := h.attentive.sound.lively.accounted
    have place := h.place
    simp only [Lane.step]
    generalize l.courier = courier at place ⊢
    cases place with
    | idle => exact .idle
    | closing call => exact .closing (call.undergo accounted h.exited (.act a))
    | opening call => exact .opening (call.undergo accounted h.exited (.act a))
  | activate path text =>
    simp only [Lane.step, same_activate]
    exact h.place
  | consume => exact h.consume
  | close | bidFarewell | release => cases routine

/-- The gate does not make the courier give up. -/
theorem Unaware.on (h : l.Unaware) : l.courier ≠ .ended := by
  intro ended
  have place := h.place
  rw [ended] at place
  cases place

theorem Attentive.unaware {operation : String} (h : l.Attentive)
    (switches : Courier.switches l.courier = true)
    (failed : l.failure? = some (.invalidState operation .exited)) : l.consume.1.Unaware := by
  have after := h.step (a := .consume) rfl
  have next : l.consume.1 = { l with courier := .idle } := by
    rw [consume_of_failed_switch switches failed, fail_other l (by simp)]
  refine ⟨after, ?_, ?_⟩
  · rcases h.failure switches failed with ⟨other, -⟩ | ⟨-, -, exited⟩
    · cases other
    · rw [next]
      exact exited
  · rw [next]
    exact .idle

theorem GoesOn.sent (h : l.GoesOn l') (gone : l.session.Over) :
    l'.session.Over ∧ l'.session.sent = l.session.sent := by
  refine h.keeps (P := fun k => k.session.Over ∧ k.session.sent = l.session.sent) ?_ ⟨gone, rfl⟩
  intro k a _ now
  obtain ⟨deeds, same⟩ := through_step k a
  obtain ⟨still, quiet⟩ := now.1.through deeds
  rw [same]
  exact ⟨still, quiet.trans now.2⟩

end Lane

namespace Workspace

variable {w : Workspace} {n : Nat} {l : Lane} {language : String}

/-! ## Activations after a failure -/

/-- Whether every activation for a language is refused, but that of the active document. -/
def Refuses (w : Workspace) (language : String) : Prop :=
  ∀ launcher path text, (w.activate launcher language path text).2 =
    if (w.active? language).any (·.same path) then .ok none else .error .sessionTerminated

/-- Whether every activation for a language is queued, but that of the active document. -/
def Accepts (w : Workspace) (language : String) : Prop :=
  ∀ launcher path text, ∃ item : Activation, item.path = path ∧
    (w.activate launcher language path text).2 =
      if (w.active? language).any (·.same path) then .ok none else .ok (some item)

theorem activate_of_lane (found : w.registered.find? language = some n)
    (hl : w.lanes[n]? = some l) (launcher : Launcher) (path : Path) (text : String) :
    (w.activate launcher language path text).2 = (l.activate path text).2 := by
  unfold Workspace.activate
  rw [found]
  dsimp only
  rw [activateIn_of_lane hl]

theorem refuses_of_ended (found : w.registered.find? language = some n)
    (hl : w.lanes[n]? = some l) (ended : l.courier = .ended) : w.Refuses language := by
  intro launcher path text
  rw [activate_of_lane found hl, active?_of_lane found hl, ← Lane.isActive]
  rcases l.activate_cases path text with ⟨already, out⟩ | ⟨new, ⟨-, out⟩ | ⟨on, -⟩⟩
  · rw [out, if_pos already]
  · rw [out, new]
    rfl
  · exact absurd ended on

theorem accepts_of_on (found : w.registered.find? language = some n)
    (hl : w.lanes[n]? = some l) (on : l.courier ≠ .ended) : w.Accepts language := by
  intro launcher path text
  refine ⟨⟨l.active, path, text, l.version path + 1⟩, rfl, ?_⟩
  rw [activate_of_lane found hl, active?_of_lane found hl, ← Lane.isActive]
  rcases l.activate_cases path text with ⟨already, out⟩ | ⟨new, ⟨ended, -⟩ | ⟨-, out⟩⟩
  · rw [out, if_pos already]
  · exact absurd ended on
  · rw [out, new]
    rfl

theorem lanes_consume (hl : w.lanes[n]? = some l) :
    (w.undergo (.consume n)).lanes[n]? = some l.consume.1 := by
  simp only [undergo, step, Workspace.stepLane, hl]
  exact (lanes_setLane hl n _).trans (if_pos rfl ▸ rfl)

/-- In the lane that a language has at any moment of a run, a switch fails for one of two
reasons: the dispatcher of the session is closed, or the session has exited and its gate has
refused the switch.  When the courier takes in the first, or a handshake that has failed, every
activation for the language is refused from then on, but that of the active document.  When it
takes in the second, every one is queued, and the server gets nothing more.  Both last until the
workspace is left, which takes the lane away from the language. -/
theorem activations_after_failure (processId : Nat) (folder : Path) (root : Option String)
    (deeds : List Deed) (language : String) (n : Nat) (l : Lane) (w : Workspace)
    (reached : w = ({ create processId folder with rootUri := root } : Workspace).through deeds)
    (registered : w.registered.find? language = some n) (lane : w.lanes[n]? = some l)
    (e : ClientError) (failed : l.failure? = some e) (more : List Deed)
    (still : ∀ d ∈ more, ¬ d.Leaves) :
    let later := (w.undergo (.consume n)).through more
    (Lane.Courier.switches l.courier = true →
      e = .sessionTerminated ∧ l.session.dispatcher.closed = true ∨
        ∃ operation, e = .invalidState operation .exited ∧ l.session.phase = .exited) ∧
    (Lane.Courier.switches l.courier = false ∨ e = .sessionTerminated → later.Refuses language) ∧
    (∀ operation, Lane.Courier.switches l.courier = true → e = .invalidState operation .exited →
      later.Accepts language ∧
        (later.lanes[n]?).map (fun k => k.session.sent) = some l.session.sent) := by
  intro later
  have manned : w.Manned := by
    rw [reached]
    exact (manned_create processId folder root).through deeds
  obtain ⟨begun, spared⟩ := manned.lane registered lane
  have attentive := begun.attentive
  have consumes : ¬ (Deed.consume n).Leaves := by
    rintro ⟨grace, other⟩
    cases other
  have found : later.registered.find? language = some n :=
    find?_through (find?_undergo registered consumes) still
  obtain ⟨k, hk, goesOn⟩ :=
    goesOn_through (lanes_consume lane) (spared.undergo consumes) still
  refine ⟨fun switches => attentive.failure switches failed, fun cause => ?_, ?_⟩
  · -- The courier has ended, and from that nothing brings it back.
    have ended : l.consume.1.courier = .ended := by
      cases switches : Lane.Courier.switches l.courier with
      | false => exact Lane.ended_of_failed_greeting switches failed
      | true =>
        rcases cause with other | rfl
        · rw [switches] at other
          cases other
        · rw [Lane.consume_of_failed_switch switches failed]
          exact l.fail_terminated
    have still_ended : k.courier = .ended :=
      goesOn.keeps (P := fun k => k.courier = .ended) (fun _ a _ now => Lane.ended_step now a) ended
    exact refuses_of_ended found hk still_ended
  · -- The courier is back at its queue, and every later switch ends at the same gate.
    rintro operation switches rfl
    have unaware := attentive.unaware switches failed
    have on := (goesOn.keeps (fun _ _ routine unaware => unaware.step routine) unaware).on
    obtain ⟨-, sent⟩ := goesOn.sent (unaware.attentive.tended.afterExit unaware.exited)
    refine ⟨accepts_of_on found hk on, ?_⟩
    rw [hk, Option.map_some, sent, Lane.consume_of_failed_switch switches failed,
      Lane.fail_other l (by simp)]

/-- The second document is activated when nobody reads what is sent to the server any more,
and the switch to it has failed. -/
def unheard : List Deed :=
  visiting [.ofString "/a.py"] ++ [.session 0 .serverStopsReading, .session 0 .write,
    .activate (fun _ => .ok ⟨1000, none⟩) "python" (.ofString "/b.py") "y", .consume 0,
    .session 0 (.resume 4), .session 0 .serve, .session 0 (.resume 4)]

/-- The second document is activated when the server has ended its output, and the switch to
it has failed. -/
def outlived : List Deed :=
  visiting [.ofString "/a.py"] ++ [.session 0 .serverCloses, .session 0 .deliver,
    .activate (fun _ => .ok ⟨1000, none⟩) "python" (.ofString "/b.py") "y", .consume 0,
    .session 0 (.resume 4)]

theorem activations_after_failure_unheard :
    let w := ({ create 7 (.ofString "/") with rootUri := none } : Workspace).through unheard
    ((w.lanes[0]?).bind Lane.failure?) = some .sessionTerminated ∧
      ((w.undergo (.consume 0)).activate (fun _ => .ok ⟨1000, none⟩) "python"
        (.ofString "/c.py") "z").2 = .error .sessionTerminated := by
  intro w
  have failed : ((w.lanes[0]?).bind Lane.failure?) = some .sessionTerminated := by decide +kernel
  refine ⟨failed, ?_⟩
  obtain ⟨l, lane, failed⟩ := Option.bind_eq_some_iff.mp failed
  obtain ⟨-, refuses, -⟩ := activations_after_failure 7 (.ofString "/") none unheard "python"
    0 l w rfl (by decide +kernel) lane .sessionTerminated failed [] (by simp)
  have other : ((w.undergo (.consume 0)).active? "python").any (·.same (.ofString "/c.py")) = false := by
    decide +kernel
  refine (refuses (.inr rfl) (fun _ => .ok ⟨1000, none⟩) (.ofString "/c.py") "z").trans ?_
  rw [show (w.undergo (.consume 0)).through [] = w.undergo (.consume 0) from rfl, other]
  rfl

/-- The exit of a session does not have activations refused: the gate has failed a switch, and
the next activation is queued. -/
theorem exit_unreported :
    ¬ ∀ (processId : Nat) (folder : Path) (root : Option String) (deeds : List Deed)
      (language : String) (n : Nat) (l : Lane) (e : ClientError) (more : List Deed),
      let w := ({ create processId folder with rootUri := root } : Workspace).through deeds
      w.registered.find? language = some n → w.lanes[n]? = some l →
      Lane.Courier.switches l.courier = true → l.failure? = some e →
      l.session.phase = .exited ∨ l.session.dispatcher.closed = true →
      (∀ d ∈ more, ¬ d.Leaves) → ((w.undergo (.consume n)).through more).Refuses language := by
  intro reported
  let w := ({ create 7 (.ofString "/") with rootUri := none } : Workspace).through outlived
  have facts : (w.lanes[0]?).map (fun l => (Lane.Courier.switches l.courier, l.failure?,
      l.session.phase)) = some (true, some (.invalidState "textDocument/didClose" .exited),
        .exited) := by
    decide +kernel
  obtain ⟨l, lane, is⟩ := Option.map_eq_some_iff.mp facts
  obtain ⟨switches, rest⟩ := Prod.mk.inj is
  obtain ⟨failed, exited⟩ := Prod.mk.inj rest
  have refuses := reported 7 (.ofString "/") none outlived "python" 0 l _ []
    (by decide +kernel) lane switches failed (.inl exited) (by simp)
  have other : ((w.undergo (.consume 0)).active? "python").any (·.same (.ofString "/c.py")) = false := by
    decide +kernel
  have refused : ((w.undergo (.consume 0)).activate (fun _ => .ok ⟨1000, none⟩) "python"
      (.ofString "/c.py") "z").2 = .error .sessionTerminated := by
    refine (refuses (fun _ => .ok ⟨1000, none⟩) (.ofString "/c.py") "z").trans ?_
    rw [show (w.undergo (.consume 0)).through [] = w.undergo (.consume 0) from rfl, other]
    rfl
  have queued : (Lane.newly ((w.undergo (.consume 0)).activate (fun _ => .ok ⟨1000, none⟩) "python"
      (.ofString "/c.py") "z").2).map Activation.path = [.ofString "/c.py"] := by
    decide +kernel
  rw [refused] at queued
  cases queued

end Workspace

end LanguageClient
