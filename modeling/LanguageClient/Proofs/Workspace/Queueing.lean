import LanguageClient.Proofs.Workspace.WireOrder

/-!
# What is queued for a language

As long as a workspace is not left, the activations that are queued for a language are an
itinerary: they lead from document to document, and their versions count the visits.  A
language gets one lane, which is never replaced, and an activation that fails leaves lanes
and active documents as they were.
-/

set_option autoImplicit false

namespace LanguageClient

namespace Workspace

variable {w w' : Workspace} {n m : Nat} {l : Lane}

/-! ## Lanes of a workspace -/

theorem lanes_setLane (hl : w.lanes[m]? = some l) (n : Nat) (l' : Lane) :
    (w.setLane n l').lanes[m]? = some (if n = m then l' else l) := by
  have inside : m < w.lanes.length := (List.getElem?_eq_some_iff.mp hl).1
  rw [Workspace.setLane, List.getElem?_set]
  by_cases same : n = m
  · subst same
    rw [if_pos rfl, if_pos inside, if_pos rfl]
  · rw [if_neg same, if_neg same, hl]

theorem lanes_openLane (hl : w.lanes[n]? = some l) (language : String) (server : Server) :
    (w.openLane language server).lanes[n]? = some l := by
  have inside : n < w.lanes.length := (List.getElem?_eq_some_iff.mp hl).1
  exact (List.getElem?_append_left inside).trans hl

theorem works_stepLane (hl : w.lanes[m]? = some l) (n : Nat) {a : Lane.Action}
    (none : a.activated = [])
    (beyond : n = m → a = .release → l.farewellResult?.isSome = true) :
    ∃ l', (w.stepLane n a).1.lanes[m]? = some l' ∧ l.Works l' ∧
      (a ≠ .close → l'.accepting = l.accepting) := by
  unfold Workspace.stepLane
  split
  · exact ⟨l, hl, .rests, fun _ => rfl⟩
  · rename_i k hk
    refine ⟨_, lanes_setLane hl n (k.step a).1, ?_⟩
    split
    · rename_i same
      subst same
      obtain rfl := Option.some.inj (hk.symm.trans hl)
      exact ⟨.steps none (beyond rfl), k.accepting_step⟩
    · exact ⟨.rests, fun _ => rfl⟩

theorem works_depart (hl : w.lanes[m]? = some l) :
    ∃ l', w.depart.1.lanes[m]? = some l' ∧ l.Works l' := by
  unfold Workspace.depart
  split
  · exact ⟨l, hl, .rests⟩
  · exact ⟨l, hl, .rests⟩
  · rename_i grace number rest _
    split
    · exact ⟨l, hl, .rests⟩
    · rename_i k hk
      split
      · exact ⟨l, hl, .rests⟩
      · rename_i errand
        obtain ⟨none, unreleased⟩ := act_of_errand errand
        obtain ⟨l', hl', works, -⟩ := works_stepLane hl number none fun _ released =>
          absurd released unreleased
        exact ⟨l', hl', works⟩
      · rename_i result errand
        have beyond : number = m → l.farewellResult?.isSome = true := by
          rintro rfl
          obtain rfl := Option.some.inj (hk.symm.trans hl)
          rw [farewell_of_errand errand]
          rfl
        obtain ⟨l', hl', works, -⟩ := works_stepLane (w := { w with leaving := some ⟨grace, rest⟩ })
          (a := .release) hl number rfl fun here _ => beyond here
        exact ⟨l', hl', works⟩

/-- Whether a deed is not an activation. -/
def Deed.Quiet : Deed → Prop
  | .activate .. => False
  | _ => True

theorem Deed.quiet_or (d : Deed) :
    d.Quiet ∨ ∃ launcher language path text, d = .activate launcher language path text := by
  cases d with
  | activate launcher language path text => exact .inr ⟨launcher, language, path, text, rfl⟩
  | leave | depart | advance | session | consume => exact .inl trivial

/-- Without an activation every lane rests or takes a step of its own, and its queue is
closed only while the workspace is left. -/
theorem works_undergo (hl : w.lanes[n]? = some l) {d : Deed} (quiet : d.Quiet) :
    ∃ l', (w.undergo d).lanes[n]? = some l' ∧ l.Works l' ∧
      (w.leaving = none → l'.accepting = l.accepting) := by
  have stepped : ∀ m {a : Lane.Action}, a.activated = [] → a ≠ .release → a ≠ .close →
      ∃ l', (w.stepLane m a).1.lanes[n]? = some l' ∧ l.Works l' ∧
        (w.leaving = none → l'.accepting = l.accepting) := by
    intro m a none unreleased open_
    obtain ⟨l', hl', works, same⟩ := works_stepLane hl m none fun _ released =>
      absurd released unreleased
    exact ⟨l', hl', works, fun _ => same open_⟩
  cases d with
  | activate => cases quiet
  | leave grace =>
    refine ⟨l, ?_, .rests, fun _ => rfl⟩
    simp only [undergo, step, Workspace.leave]
    split <;> exact hl
  | depart =>
    obtain ⟨l', hl', works⟩ := works_depart hl
    refine ⟨l', hl', works, fun stays => ?_⟩
    have same : w.depart.1 = w := by
      unfold Workspace.depart
      rw [stays]
    have here : (w.undergo .depart).lanes[n]? = some l := by
      simp only [undergo, step, same]
      exact hl
    rw [Option.some.inj (hl'.symm.trans here)]
  | advance milliseconds =>
    refine ⟨(l.step (.session (.advance milliseconds))).1, ?_, .steps rfl (by simp), fun _ => rfl⟩
    simp only [undergo, step, Workspace.advance, List.getElem?_map, hl, Option.map_some]
  | session number a => exact stepped number rfl (by simp) (by simp)
  | consume number => exact stepped number rfl (by simp) (by simp)

theorem activateIn_of_lane (hl : w.lanes[n]? = some l) (path : Path) (text : String) :
    w.activateIn n path text =
      ((w.setLane n (l.activate path text).1,
        (Lane.remarks (l.activate path text).2).map (.inLane n)), (l.activate path text).2) := by
  unfold Workspace.activateIn
  rw [hl]

/-- A lane that exists goes on and is never replaced. -/
theorem lanes_undergo (hl : w.lanes[n]? = some l) (d : Deed) :
    ∃ as, (w.undergo d).lanes[n]? = some (l.run as).1 := by
  have activated : ∀ (v : Workspace) (m : Nat) (path : Path) (text : String),
      v.lanes[n]? = some l →
        ∃ as, (v.activateIn m path text).1.1.lanes[n]? = some (l.run as).1 := by
    intro v m path text hn
    unfold Workspace.activateIn
    split
    · exact ⟨[], hn⟩
    · rename_i k hk
      have set := lanes_setLane hn m (k.activate path text).1
      by_cases same : m = n
      · subst same
        obtain rfl := Option.some.inj (hk.symm.trans hn)
        rw [if_pos rfl] at set
        exact ⟨[.activate path text], set⟩
      · rw [if_neg same] at set
        exact ⟨[], set⟩
  rcases d.quiet_or with quiet | ⟨launcher, language, path, text, rfl⟩
  · obtain ⟨l', hl', works, -⟩ := works_undergo hl quiet
    obtain ⟨as, rfl⟩ := works.run
    exact ⟨as, hl'⟩
  · simp only [undergo, Workspace.activate]
    split
    · exact activated w _ path text hl
    · split
      · exact ⟨[], hl⟩
      · exact activated _ _ path text (lanes_openLane hl language _)

/-! ## Registrations -/

/-- Whether a deed leaves the workspace. -/
def Deed.Leaves (d : Deed) : Prop := ∃ grace, d = .leave grace

theorem registered_stepLane (w : Workspace) (n : Nat) (a : Lane.Action) :
    (w.stepLane n a).1.registered = w.registered := by
  unfold Workspace.stepLane
  split <;> rfl

theorem registered_depart (w : Workspace) : w.depart.1.registered = w.registered := by
  unfold Workspace.depart
  split
  · rfl
  · rfl
  · split
    · rfl
    · split
      · rfl
      · exact registered_stepLane w _ _
      · exact registered_stepLane _ _ _

/-- Only activating and leaving touch the registrations. -/
theorem registered_undergo {d : Deed} (quiet : d.Quiet) (stays : ¬ d.Leaves) :
    (w.undergo d).registered = w.registered := by
  cases d with
  | activate => cases quiet
  | leave grace => exact absurd ⟨grace, rfl⟩ stays
  | depart => exact registered_depart w
  | advance milliseconds => rfl
  | session number a => exact registered_stepLane w number _
  | consume number => exact registered_stepLane w number _

theorem registered_activateIn (w : Workspace) (n : Nat) (path : Path) (text : String) :
    (w.activateIn n path text).1.1.registered = w.registered := by
  unfold Workspace.activateIn
  split <;> rfl

/-- What an activation opens and registers: nothing for a language that has a lane or whose
server does not start, and otherwise one lane. -/
theorem activate_opens (launcher : Launcher) (w : Workspace) (language : String) (path : Path)
    (text : String) :
    (∃ n, w.registered.find? language = some n ∧
        w.activate launcher language path text = w.activateIn n path text) ∨
      w.registered.find? language = none ∧
        ((∃ e, launcher language = .error e ∧
            w.activate launcher language path text = ((w, []), .error e)) ∨
          ∃ server, launcher language = .ok server ∧
            w.activate launcher language path text =
              let out := (w.openLane language server).activateIn w.lanes.length path text
              ((out.1.1, .opened w.lanes.length language :: out.1.2), out.2)) := by
  unfold Workspace.activate
  cases found : w.registered.find? language with
  | some n => exact .inl ⟨n, rfl, rfl⟩
  | none =>
    refine .inr ⟨rfl, ?_⟩
    cases launched : launcher language with
    | error e => exact .inl ⟨e, rfl, rfl⟩
    | ok server => exact .inr ⟨server, rfl, rfl⟩

/-- A registration lasts until the workspace is left. -/
theorem find?_undergo {language : String} (found : w.registered.find? language = some n)
    {d : Deed} (stays : ¬ d.Leaves) : (w.undergo d).registered.find? language = some n := by
  rcases d.quiet_or with quiet | ⟨launcher, name, path, text, rfl⟩
  · rw [registered_undergo quiet stays]
    exact found
  · rw [undergo]
    rcases activate_opens launcher w name path text with
      ⟨m, -, out⟩ | ⟨absent, ⟨e, -, out⟩ | ⟨server, -, out⟩⟩ <;> rw [out]
    · rw [registered_activateIn]
      exact found
    · exact found
    · dsimp only
      rw [registered_activateIn, Workspace.openLane]
      refine (Entries.find?_put_ne ?_).trans found
      rintro rfl
      rw [absent] at found
      cases found

/-- The number of the lane that is opened for a language. -/
def Event.opened? (language : String) : Event → Option Nat
  | .opened number name => if name = language then some number else none
  | .inLane .. => none

/-- The numbers of the lanes that a deed opens for a language. -/
def Deed.opened (w : Workspace) (language : String) : Deed → List Nat
  | .activate launcher name path text =>
    (w.activate launcher name path text).1.2.filterMap (Event.opened? language)
  | _ => []

/-- The numbers of the lanes that deeds open for a language. -/
def opened (language : String) (w : Workspace) : List Deed → List Nat
  | [] => []
  | d :: rest => d.opened w language ++ opened language (w.undergo d) rest

/-- What a deed queues for a language. -/
def Deed.queued (w : Workspace) (language : String) : Deed → List Activation
  | .activate launcher name path text =>
    if name = language then Lane.newly (w.activate launcher name path text).2 else []
  | _ => []

/-- What deeds queue for a language. -/
def queued (language : String) (w : Workspace) : List Deed → List Activation
  | [] => []
  | d :: rest => d.queued w language ++ queued language (w.undergo d) rest

theorem find?_through {language : String} (found : w.registered.find? language = some n)
    {deeds : List Deed} (stays : ∀ d ∈ deeds, ¬ d.Leaves) :
    (w.through deeds).registered.find? language = some n := by
  induction deeds generalizing w with
  | nil => exact found
  | cons d deeds ih =>
    have first := find?_undergo found (stays d List.mem_cons_self)
    exact ih first fun d later => stays d (List.mem_cons_of_mem _ later)

/-- Whether these are the activations that were queued for each language: the lane of the
language has queued them, and where there is no lane there are none. -/
structure Enlists (w : Workspace) (items : String → List Activation) : Prop where
  lane : ∀ language n, w.registered.find? language = some n → ∃ l, w.lanes[n]? = some l ∧
    l.session.language = language ∧ l.Queues (items language)
  absent : ∀ language, w.registered.find? language = none → items language = []

theorem enlists_create (processId : Nat) (folder : Path) (root : Option String) :
    ({ create processId folder with rootUri := root } : Workspace).Enlists fun _ => [] := by
  refine ⟨fun language n found => ?_, fun _ _ => rfl⟩
  cases found

/-- An activation in the lane of a language is queued for that language only. -/
theorem Enlists.activateIn {items : String → List Activation} (h : w.Enlists items)
    {language : String} (found : w.registered.find? language = some n) (path : Path)
    (text : String) :
    (w.activateIn n path text).1.1.Enlists fun name =>
      items name ++ if language = name then Lane.newly (w.activateIn n path text).2 else [] := by
  obtain ⟨l, hl, is, queues⟩ := h.lane language n found
  have same : (l.activate path text).1.session.language = l.session.language := by
    rcases l.activate_cases path text with
      ⟨-, out⟩ | ⟨-, ⟨-, out⟩ | ⟨-, out⟩⟩ <;> rw [out]
  rw [activateIn_of_lane hl]
  refine ⟨fun name m registered => ?_, fun name absent => ?_⟩
  · obtain ⟨k, hk, named, old⟩ := h.lane name m registered
    have set := lanes_setLane hk n (l.activate path text).1
    by_cases here : n = m
    · subst here
      obtain rfl := Option.some.inj (hl.symm.trans hk)
      obtain rfl : language = name := is.symm.trans named
      rw [if_pos rfl] at set
      rw [if_pos rfl]
      exact ⟨_, set, same.trans is, queues.activate path text⟩
    · have other : language ≠ name := by
        rintro rfl
        exact here (Option.some.inj (found.symm.trans registered))
      rw [if_neg here] at set
      rw [if_neg other, List.append_nil]
      exact ⟨k, set, named, old⟩
  · have other : language ≠ name := by
      rintro rfl
      exact Option.some_ne_none n (found.symm.trans absent)
    rw [if_neg other, List.append_nil]
    exact h.absent name absent

theorem Enlists.openLane {items : String → List Activation} (h : w.Enlists items)
    {language : String} (absent : w.registered.find? language = none) (server : Server) :
    (w.openLane language server).Enlists items := by
  refine ⟨fun name n registered => ?_, fun name none => ?_⟩
  · by_cases here : name = language
    · subst here
      rw [Workspace.openLane, Entries.find?_put_same] at registered
      obtain rfl := Option.some.inj registered
      rw [h.absent name absent]
      exact ⟨_, List.getElem?_concat_length, rfl, Lane.queues_start _ _ _⟩
    · rw [Workspace.openLane, Entries.find?_put_ne here] at registered
      obtain ⟨l, hl, is, queues⟩ := h.lane name n registered
      exact ⟨l, lanes_openLane hl language server, is, queues⟩
  · by_cases here : name = language
    · subst here
      exact h.absent name absent
    · rw [Workspace.openLane, Entries.find?_put_ne here] at none
      exact h.absent name none

theorem Enlists.undergo {items : String → List Activation} (h : w.Enlists items) {d : Deed}
    (stays : ¬ d.Leaves) :
    (w.undergo d).Enlists fun language => items language ++ d.queued w language := by
  -- Nothing but an activation queues anything.
  rcases d.quiet_or with quiet | ⟨launcher, name, path, text, rfl⟩
  · have none : ∀ language, d.queued w language = [] := by
      intro language
      cases d with
      | activate => cases quiet
      | leave | depart | advance | session | consume => rfl
    have kept := registered_undergo (w := w) quiet stays
    refine ⟨fun language n found => ?_, fun language absent => ?_⟩ <;> rw [none, List.append_nil]
    · rw [kept] at found
      obtain ⟨l, hl, is, queues⟩ := h.lane language n found
      obtain ⟨l', hl', works, -⟩ := works_undergo hl quiet
      exact ⟨l', hl', works.language.trans is, queues.unqueued works.unqueued⟩
    · rw [kept] at absent
      exact h.absent language absent
  · simp only [Deed.queued, Workspace.undergo]
    rcases activate_opens launcher w name path text with
      ⟨n, found, out⟩ | ⟨absent, ⟨e, -, out⟩ | ⟨server, -, out⟩⟩ <;> rw [out]
    · exact h.activateIn found path text
    · simpa [Lane.newly] using h
    · have found : (w.openLane name server).registered.find? name = some w.lanes.length :=
        Entries.find?_put_same name w.lanes.length w.registered
      exact (h.openLane absent server).activateIn found path text

theorem Enlists.through {items : String → List Activation} (h : w.Enlists items)
    {deeds : List Deed} (stays : ∀ d ∈ deeds, ¬ d.Leaves) :
    (w.through deeds).Enlists fun language => items language ++ queued language w deeds := by
  induction deeds generalizing w items with
  | nil => simpa [Workspace.through, queued] using h
  | cons d deeds ih =>
    have first := h.undergo (stays d List.mem_cons_self)
    have rest := ih first fun d later => stays d (List.mem_cons_of_mem _ later)
    simp only [List.append_assoc] at rest
    exact rest

/-! ## The next activation -/

theorem lane?_of_registered {language : String} (found : w.registered.find? language = some n) :
    w.lane? language = w.lanes[n]? := by
  rw [Workspace.lane?, found]
  rfl

theorem active?_of_lane {language : String} (found : w.registered.find? language = some n)
    (hl : w.lanes[n]? = some l) : w.active? language = l.active := by
  rw [Workspace.active?, lane?_of_registered found, hl]
  rfl

theorem active?_of_absent {language : String} (absent : w.registered.find? language = none) :
    w.active? language = none := by
  rw [Workspace.active?, Workspace.lane?, absent]
  rfl

theorem Enlists.active? {items : String → List Activation} (h : w.Enlists items)
    (language : String) :
    w.active? language = ((items language).map Activation.path).getLast? := by
  cases found : w.registered.find? language with
  | some n =>
    obtain ⟨l, hl, -, queues⟩ := h.lane language n found
    rw [active?_of_lane found hl, queues.active]
  | none => rw [active?_of_absent found, h.absent language found, List.map_nil, List.getLast?_nil]

theorem activateIn_openLane (w : Workspace) (language : String) (server : Server) (path : Path)
    (text : String) :
    ((w.openLane language server).activateIn w.lanes.length path text).2 =
      .ok (some ⟨none, path, text, 1⟩) := by
  have new : (w.openLane language server).lanes[w.lanes.length]? =
      some (.start (Session.launch language server.limit server.process w.clock) w.greeting
        w.folder) := List.getElem?_concat_length
  rw [activateIn_of_lane new]
  rfl

theorem map_setLane {α : Type} (f : Lane → α) (hl : w.lanes[n]? = some l) {l' : Lane}
    (same : f l' = f l) : (w.setLane n l').lanes.map f = w.lanes.map f := by
  obtain ⟨inside, is⟩ := List.getElem?_eq_some_iff.mp hl
  have bound : n < (w.lanes.map f).length := by simpa using inside
  have old : (w.lanes.map f)[n] = f l := by rw [List.getElem_map, is]
  rw [Workspace.setLane, List.map_set, same, ← old, List.set_getElem_self]

/-- Putting a lane back with its session and its active document changes none of them. -/
theorem seen_setLane (hl : w.lanes[n]? = some l) {l' : Lane} (active : l'.active = l.active)
    (session : l'.session = l.session) :
    (w.setLane n l').lanes.map Lane.session = w.lanes.map Lane.session ∧
      ∀ name, (w.setLane n l').active? name = w.active? name := by
  refine ⟨map_setLane Lane.session hl session, fun name => ?_⟩
  · cases found : w.registered.find? name with
    | none => rw [active?_of_absent found, active?_of_absent (w := w.setLane n l') found]
    | some m =>
      cases hk : w.lanes[m]? with
      | none =>
        have outside : (w.setLane n l').lanes[m]? = none := by
          rw [List.getElem?_eq_none_iff] at hk ⊢
          simpa [Workspace.setLane] using hk
        rw [Workspace.active?, Workspace.active?, lane?_of_registered found, hk,
          lane?_of_registered (w := w.setLane n l') found, outside]
      | some k =>
        have set := lanes_setLane hk n l'
        rw [active?_of_lane (w := w.setLane n l') found set, active?_of_lane found hk]
        split
        · rename_i same
          subst same
          obtain rfl := Option.some.inj (hl.symm.trans hk)
          exact active
        · rfl

/-- What the next activation for a language does: nothing for the document that is active,
and where it fails every session and every active document stays. -/
theorem Enlists.next {items : String → List Activation} (h : w.Enlists items)
    (launcher : Launcher) (language : String) (path : Path) (text : String) :
    let out := w.activate launcher language path text
    (out.2 = .ok none ↔ ∃ p, w.active? language = some p ∧ p.same path = true) ∧
      (out.2 = .ok none → out.1 = (w, [])) ∧
      ∀ e, out.2 = .error e → out.1.1.registered = w.registered ∧
        out.1.1.lanes.map Lane.session = w.lanes.map Lane.session ∧
        ∀ name, out.1.1.active? name = w.active? name := by
  dsimp only
  rcases activate_opens launcher w language path text with
    ⟨n, found, out⟩ | ⟨absent, ⟨e, -, out⟩ | ⟨server, -, out⟩⟩
  · obtain ⟨l, hl, -, -⟩ := h.lane language n found
    rw [out, activateIn_of_lane hl, active?_of_lane found hl]
    have current : l.isActive path = true ↔ ∃ p, l.active = some p ∧ p.same path = true := by
      rw [Lane.isActive, Option.any_eq_true]
    rw [← current]
    rcases l.activate_cases path text with
      ⟨already, out⟩ | ⟨new, ⟨ended, out⟩ | ⟨on, out⟩⟩ <;> rw [out]
    · obtain ⟨inside, is⟩ := List.getElem?_eq_some_iff.mp hl
      have same : w.setLane n l = w := by
        rw [Workspace.setLane, ← is, List.set_getElem_self]
      refine ⟨iff_of_true rfl already, fun _ => ?_, fun e failed => ?_⟩
      · rw [same]
        rfl
      · cases failed
    · refine ⟨iff_of_false (by simp) (by simp [new]), fun unchanged => ?_, fun e _ => ⟨rfl, ?_⟩⟩
      · cases unchanged
      · exact seen_setLane hl rfl rfl
    · refine ⟨iff_of_false (by simp) (by simp [new]), fun unchanged => ?_, fun e failed => ?_⟩
      · cases unchanged
      · cases failed
  · rw [out, active?_of_absent absent]
    refine ⟨iff_of_false (by simp) (by simp), fun unchanged => ?_, fun e failed => ?_⟩
    · cases unchanged
    · exact ⟨rfl, rfl, fun _ => rfl⟩
  · rw [out, active?_of_absent absent]
    dsimp only
    rw [activateIn_openLane]
    refine ⟨iff_of_false (by simp) (by simp), fun unchanged => ?_, fun e failed => ?_⟩
    · cases unchanged
    · cases failed

end Workspace

end LanguageClient
