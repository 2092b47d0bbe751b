import LanguageClient.Proofs.Workspace.Delivery
import LanguageClient.Proofs.Workspace.Queueing

/-!
# The lane of one language

What a workspace does for one language whose server does its part: it opens one lane, in
which it queues what is activated (`Bears`), and when it is left it does not pass the
lane before the server has been told to exit (`Awaits`).
-/

set_option autoImplicit false

namespace LanguageClient

namespace Lane

variable {l l' : Lane} {items : List Activation}

theorem sent_step (l : Lane) (a : Action) : l.session.sent <+: (l.step a).1.session.sent := by
  have step := stepped l a
  generalize (l.step a).1 = l' at step ⊢
  cases step with
  | session a => exact Session.sent_step l.session a
  | released | activated | called | aside => exact List.prefix_rfl

theorem Works.sent (h : l.Works l') : l.session.sent <+: l'.session.sent := by
  cases h with
  | rests => exact List.prefix_rfl
  | steps => exact sent_step l _

/-- As long as activations can come the courier is there. -/
theorem Faithful.on (h : l.Faithful items) (open_ : l.accepting = true) : l.courier ≠ .ended := by
  intro ended
  have shut : l.accepting = false := by
    by_cases told : .leave ∈ l.session.sent
    · rcases h.sent_cases with ⟨_, ds, -, -, sent⟩ | ⟨-, shut, -⟩
      · exact absurd (sent.subset told) (leave_not_mem_script l.greeting ds)
      · exact shut
    · obtain ⟨ds, orderly⟩ := h.holds.orderly (h.unbroken told).opened
      rcases orderly.drained ended with rejected | ⟨shut, -⟩
      · exact absurd rejected h.accepted
      · exact shut
  rw [open_] at shut
  cases shut

end Lane

theorem Lane.convertible_of_rooted {folder : Path} (rooted : folder.isAbsolute = true)
    (vs : List (Path × String)) : Lane.Convertible folder vs :=
  fun v _ => Uri.ofPathIn_of_rooted rooted v.1

namespace Workspace

variable {w : Workspace} {language : String} {n : Nat} {l : Lane}

/-! ## The languages of lanes -/

/-- The languages of all lanes, by their numbers. -/
def tongues (w : Workspace) : List String := w.lanes.map fun l => l.session.language

theorem tongues_setLane (hl : w.lanes[n]? = some l) {l' : Lane}
    (same : l'.session.language = l.session.language) : (w.setLane n l').tongues = w.tongues :=
  map_setLane (fun l => l.session.language) hl same

theorem tongues_stepLane (w : Workspace) (n : Nat) (a : Lane.Action) :
    (w.stepLane n a).1.tongues = w.tongues := by
  unfold Workspace.stepLane
  split
  · rfl
  · rename_i l hl
    exact tongues_setLane hl (Lane.language_step l a)

theorem tongues_depart (w : Workspace) : w.depart.1.tongues = w.tongues := by
  unfold Workspace.depart
  split
  · rfl
  · rfl
  · split
    · rfl
    · split
      · rfl
      · exact tongues_stepLane w _ _
      · exact tongues_stepLane _ _ _

theorem tongues_undergo {d : Deed} (quiet : d.Quiet) : (w.undergo d).tongues = w.tongues := by
  cases d with
  | activate => cases quiet
  | leave grace =>
    simp only [undergo, step, Workspace.leave]
    split <;> rfl
  | depart => exact tongues_depart w
  | advance milliseconds =>
    simp only [undergo, step, Workspace.advance, tongues, List.map_map]
    rfl
  | session number a => exact tongues_stepLane w number _
  | consume number => exact tongues_stepLane w number _

/-- Without an activation every lane was there before. -/
theorem lanes_of_undergo {d : Deed} (quiet : d.Quiet) {l' : Lane} (member : l' ∈ (w.undergo d).lanes) :
    ∃ (n : Nat) (l : Lane), w.lanes[n]? = some l ∧ (w.undergo d).lanes[n]? = some l' := by
  obtain ⟨n, hl'⟩ := List.mem_iff_getElem?.mp member
  have inside : n < w.lanes.length := by
    have length := congrArg List.length (tongues_undergo (w := w) quiet)
    rw [tongues, tongues, List.length_map, List.length_map] at length
    rw [← length]
    exact (List.getElem?_eq_some_iff.mp hl').1
  exact ⟨n, _, List.getElem?_eq_getElem inside, hl'⟩

theorem tongues_activateIn (w : Workspace) (n : Nat) (path : Path) (text : String) :
    (w.activateIn n path text).1.1.tongues = w.tongues := by
  unfold Workspace.activateIn
  split
  · rfl
  · rename_i l hl
    exact tongues_setLane hl (Lane.language_step l (.activate path text))

theorem tongues_openLane (w : Workspace) (language : String) (server : Server) :
    (w.openLane language server).tongues = w.tongues ++ [language] := by
  simp only [Workspace.openLane, tongues, List.map_append]
  rfl

/-! ## The lane -/

/-- Whether a lane is the only one of a language, with a server that has done its part so
far, and what is queued in it leads to these documents. -/
structure Bears (w : Workspace) (language : String) (n : Nat) (l : Lane)
    (acts : List (Path × String)) : Prop where
  lane : w.lanes[n]? = some l
  speaks : l.session.language = language
  only : ∀ m, w.tongues[m]? = some language → m = n
  origin : (l.folder, l.greeting) = w.origin
  faithful : ∃ items, l.Faithful items ∧ items.map Activation.visit = Lane.visits none acts

/-- Whether the servers of a language do their part. -/
def Cooperates (w : Workspace) (language : String) : Prop :=
  ∀ l ∈ w.lanes, l.session.language = language → l.session.Cooperative

instance (w : Workspace) (language : String) : Decidable (w.Cooperates language) :=
  inferInstanceAs (Decidable (∀ l ∈ w.lanes, l.session.language = language → l.session.Cooperative))

variable {acts : List (Path × String)}

theorem Bears.cooperative (h : w.Bears language n l acts) (cooperates : w.Cooperates language) :
    l.session.Cooperative :=
  cooperates l (List.mem_of_getElem? h.lane) h.speaks

theorem Bears.step (h : w.Bears language n l acts) (rooted : w.folder.isAbsolute = true)
    {w' : Workspace} (a : Lane.Action) (lane : w'.lanes[n]? = some (l.step a).1)
    (tongues : w'.tongues = w.tongues) (origin : w'.origin = w.origin)
    (coop : l.session.Cooperative) (after : (l.step a).1.session.Cooperative)
    (beyond : a = .release → l.farewellResult?.isSome = true)
    (on : a.activated = [] ∨ l.courier ≠ .ended) :
    w'.Bears language n (l.step a).1 (acts ++ a.activated) := by
  obtain ⟨items, faithful, visits⟩ := h.faithful
  have folder : l.folder = w.folder := congrArg Prod.fst h.origin
  have follows := faithful.holds.named.follows a
  have stepped := faithful.step a coop after
    (Lane.convertible_of_rooted (folder ▸ rooted) _) fun released =>
      faithful.told_of_farewell (beyond released)
  refine ⟨lane, follows.language.trans h.speaks, ?_, ?_, items ++ l.gained a, stepped, ?_⟩
  · rw [tongues]
    exact h.only
  · rw [follows.folder, follows.greeting, origin]
    exact h.origin
  · rcases on with none | on
    · rw [none, Lane.gained_of_quiet l none, List.append_nil, List.append_nil]
      exact visits
    · exact faithful.holds.queues.visit_gained visits on a

theorem Bears.aside (h : w.Bears language n l acts) {w' : Workspace}
    (lane : w'.lanes[n]? = some l) (only : ∀ m, w'.tongues[m]? = some language → m = n)
    (origin : w'.origin = w.origin) : w'.Bears language n l acts :=
  ⟨lane, h.speaks, only, h.origin.trans origin.symm, h.faithful⟩

/-- Without an activation the lane goes on by itself. -/
theorem Bears.undergo (h : w.Bears language n l acts) (rooted : w.folder.isAbsolute = true)
    {d : Deed} (quiet : d.Quiet) (before : w.Cooperates language)
    (after : (w.undergo d).Cooperates language) :
    ∃ l', (w.undergo d).Bears language n l' acts ∧ l.Works l' ∧
      (w.leaving = none → l'.accepting = l.accepting) := by
  obtain ⟨l', hl', works, open_⟩ := works_undergo h.lane quiet
  refine ⟨l', ?_, works, open_⟩
  have tongues := tongues_undergo (w := w) quiet
  have origin := origin_undergo w d
  have speaks := works.language.trans h.speaks
  cases works with
  | rests => exact h.aside hl' (tongues ▸ h.only) origin
  | @steps a none beyond =>
    have stepped := h.step rooted a hl' tongues origin (h.cooperative before)
      (after _ (List.mem_of_getElem? hl') speaks) beyond (.inl none)
    rw [none, List.append_nil] at stepped
    exact stepped

theorem Bears.activate (h : w.Bears language n l acts) (rooted : w.folder.isAbsolute = true)
    (open_ : l.accepting = true) (path : Path) (text : String) (before : w.Cooperates language)
    (after : (w.activateIn n path text).1.1.Cooperates language) :
    (w.activateIn n path text).1.1.Bears language n (l.activate path text).1
        (acts ++ [(path, text)]) ∧ (l.activate path text).1.accepting = true := by
  obtain ⟨items, faithful, -⟩ := h.faithful
  have lane : (w.activateIn n path text).1.1.lanes[n]? = some (l.activate path text).1 := by
    rw [activateIn_of_lane h.lane]
    have set := lanes_setLane h.lane n (l.activate path text).1
    rw [if_pos rfl] at set
    exact set
  have speaks := (Lane.language_step l (.activate path text)).trans h.speaks
  refine ⟨?_, (l.accepting_step (a := .activate path text) (by simp)).trans open_⟩
  exact h.step rooted (.activate path text) lane (tongues_activateIn w n path text)
    (origin_activateIn w n path text) (h.cooperative before)
    (after _ (List.mem_of_getElem? lane) speaks) (by simp) (.inr (faithful.on open_))

theorem bears_openLane (absent : language ∉ w.tongues) (server : Server) :
    (w.openLane language server).Bears language w.lanes.length
      (.start (.launch language server.limit server.process w.clock) w.greeting w.folder) [] := by
  refine ⟨List.getElem?_concat_length, rfl, fun m here => ?_, rfl, [],
    Lane.faithful_start language server.limit server.process w.clock w.greeting w.folder, rfl⟩
  rw [tongues_openLane] at here
  have length : w.tongues.length = w.lanes.length := List.length_map _
  by_cases old : m < w.tongues.length
  · rw [List.getElem?_append_left old] at here
    exact absurd (List.mem_of_getElem? here) absent
  · have inside : m < (w.tongues ++ [language]).length := (List.getElem?_eq_some_iff.mp here).1
    rw [List.length_append, List.length_singleton] at inside
    omega

theorem Bears.activate_other (h : w.Bears language n l acts)
    {items : String → List Activation} (enlists : w.Enlists items) (launcher : Launcher)
    {name : String} (other : name ≠ language) (path : Path) (text : String) :
    (w.activate launcher name path text).1.1.Bears language n l acts := by
  have origin := origin_activate launcher w name path text
  -- The other language has a lane, its server does not start, or it gets a new lane.
  rcases activate_opens launcher w name path text with
    ⟨m, found, out⟩ | ⟨-, ⟨e, -, out⟩ | ⟨server, -, out⟩⟩ <;> rw [out] at origin ⊢
  · obtain ⟨k, hk, is, -⟩ := enlists.lane name m found
    have different : m ≠ n := by
      rintro rfl
      obtain rfl := Option.some.inj (hk.symm.trans h.lane)
      exact other (is.symm.trans h.speaks)
    refine h.aside ?_ ?_ origin
    · rw [activateIn_of_lane hk]
      have set := lanes_setLane h.lane m (k.activate path text).1
      rw [if_neg different] at set
      exact set
    · rw [tongues_activateIn]
      exact h.only
  · exact h
  · have inside : n < w.lanes.length := (List.getElem?_eq_some_iff.mp h.lane).1
    refine h.aside ?_ (fun m here => ?_) origin
    · have new : (w.openLane name server).lanes[w.lanes.length]? =
          some (.start (Session.launch name server.limit server.process w.clock) w.greeting
            w.folder) := List.getElem?_concat_length
      dsimp only
      rw [activateIn_of_lane new]
      have set := lanes_setLane (lanes_openLane h.lane name server) w.lanes.length
        (Lane.activate (.start (Session.launch name server.limit server.process w.clock)
          w.greeting w.folder) path text).1
      rw [if_neg (by omega)] at set
      exact set
    · dsimp only at here
      rw [tongues_activateIn, tongues_openLane, List.getElem?_append] at here
      split at here
      · exact h.only m here
      · exact absurd (List.mem_singleton.mp (List.mem_of_getElem? here)).symm other

/-! ## The departure -/

/-- Whether a departure has still to pass a lane. -/
def Awaits (w : Workspace) (n : Nat) : Prop :=
  ∃ departure, w.leaving = some departure ∧ n ∈ departure.rest

theorem leaving_stepLane (w : Workspace) (n : Nat) (a : Lane.Action) :
    (w.stepLane n a).1.leaving = w.leaving := by
  unfold Workspace.stepLane
  split <;> rfl

theorem leaving_activateIn (w : Workspace) (n : Nat) (path : Path) (text : String) :
    (w.activateIn n path text).1.1.leaving = w.leaving := by
  unfold Workspace.activateIn
  split <;> rfl

theorem leaving_activate (launcher : Launcher) (w : Workspace) (language : String) (path : Path)
    (text : String) : (w.activate launcher language path text).1.1.leaving = w.leaving := by
  unfold Workspace.activate
  split
  · exact leaving_activateIn w _ path text
  · split
    · rfl
    · exact leaving_activateIn _ _ path text

/-- A departure passes a lane only after the end of its session. -/
theorem Awaits.undergo (h : w.Awaits n) (hl : w.lanes[n]? = some l) {d : Deed} (quiet : d.Quiet) :
    (w.undergo d).Awaits n ∨ l.farewellResult?.isSome = true := by
  obtain ⟨⟨grace, rest⟩, leaving, ahead⟩ := h
  have stays : ∀ {w' : Workspace}, w'.leaving = w.leaving → w'.Awaits n := by
    intro w' same
    exact ⟨⟨grace, rest⟩, same.trans leaving, ahead⟩
  cases d with
  | activate => cases quiet
  | leave => exact .inl (stays (by simp [Workspace.undergo, step, Workspace.leave, leaving]))
  | advance => exact .inl (stays rfl)
  | session number a => exact .inl (stays (leaving_stepLane w number _))
  | consume number => exact .inl (stays (leaving_stepLane w number _))
  | depart =>
    simp only [Workspace.undergo, step, Workspace.depart, leaving]
    cases rest with
    | nil => cases ahead
    | cons number rest =>
      dsimp only
      have on : number ≠ n → n ∈ rest := by
        intro other
        rcases List.mem_cons.mp ahead with same | later
        · exact absurd same.symm other
        · exact later
      split
      · rename_i none
        have other : number ≠ n := by
          rintro rfl
          rw [none] at hl
          cases hl
        exact .inl ⟨_, rfl, on other⟩
      · rename_i k hk
        split
        · exact .inl (stays rfl)
        · exact .inl (stays (leaving_stepLane w number _))
        · rename_i result errand
          by_cases here : number = n
          · subst here
            obtain rfl := Option.some.inj (hk.symm.trans hl)
            rw [farewell_of_errand errand]
            exact .inr rfl
          · exact .inl ⟨_, leaving_stepLane _ number .release, on here⟩

theorem leaving_undergo (stays : w.leaving = none) {d : Deed} (quiet : d.Quiet)
    (still : ¬ d.Leaves) : (w.undergo d).leaving = none := by
  cases d with
  | activate => cases quiet
  | leave grace => exact absurd ⟨grace, rfl⟩ still
  | depart => simp [Workspace.undergo, step, Workspace.depart, stays]
  | advance => exact stays
  | session number a => exact (leaving_stepLane w number _).trans stays
  | consume number => exact (leaving_stepLane w number _).trans stays

end Workspace

end LanguageClient
