import LanguageClient.Proofs.Workspace.Bearing

/-!
# One language of a workspace

Until a workspace is left, a language whose server can be started has a lane as soon as a
document of it was activated, and the lane takes every document (`Hosts`).  Once the
workspace is left, the lane goes on until its server has been told to exit (`Parts`).
-/

set_option autoImplicit false

namespace LanguageClient

theorem Session.cooperative_launch (language : String) (limit : Nat) (process : Option Nat)
    (clock : Nat) : (launch language limit process clock).Cooperative := by
  refine ⟨fun e failed => ?_, fun v done => ?_, fun m c deadline hc => ?_, fun _ => ⟨rfl, rfl, rfl⟩⟩
  · cases failed
  · cases done
  · cases hc

namespace Workspace

variable {w : Workspace} {language : String} {acts : List (Path × String)}

/-- The lane of a language in a workspace that is not left, with the documents that were
activated. -/
inductive Hosts (w : Workspace) (language : String) : List (Path × String) → Prop
  | absent (unopened : language ∉ w.tongues) (free : w.registered.find? language = none) :
      Hosts w language []
  | present {n : Nat} {l : Lane} {acts : List (Path × String)}
      (registered : w.registered.find? language = some n) (bears : w.Bears language n l acts)
      (open_ : l.accepting = true) (visited : acts ≠ []) : Hosts w language acts

/-- The lane of a language in a workspace that is left. -/
inductive Parts (w : Workspace) (language : String) : List (Path × String) → Prop
  | absent (unopened : language ∉ w.tongues) : Parts w language []
  | present {n : Nat} {l : Lane} {acts : List (Path × String)} (bears : w.Bears language n l acts)
      (beyond : .leave ∈ l.session.sent ∨ w.Awaits n) (visited : acts ≠ []) : Parts w language acts

/-- In a lane that has just been opened the server has had nothing to do yet. -/
theorem cooperates_openLane (absent : language ∉ w.tongues) (server : Server) :
    (w.openLane language server).Cooperates language := by
  intro l member speaks
  rcases List.mem_append.mp member with old | new
  · exact absurd (List.mem_map.mpr ⟨l, old, speaks⟩) absent
  · rw [List.mem_singleton.mp new]
    exact Session.cooperative_launch _ _ _ _

theorem Hosts.undergo (h : w.Hosts language acts) (rooted : w.folder.isAbsolute = true)
    (stays : w.leaving = none) {d : Deed} (quiet : d.Quiet) (still : ¬ d.Leaves)
    (before : w.Cooperates language) (after : (w.undergo d).Cooperates language) :
    (w.undergo d).Hosts language acts := by
  have registered := registered_undergo (w := w) quiet still
  cases h with
  | absent unopened free =>
    refine .absent ?_ (registered ▸ free)
    rw [tongues_undergo quiet]
    exact unopened
  | present found bears open_ visited =>
    obtain ⟨l', bears', -, same⟩ := bears.undergo rooted quiet before after
    exact .present (registered ▸ found) bears' ((same stays).trans open_) visited

theorem Hosts.activate (h : w.Hosts language acts) (rooted : w.folder.isAbsolute = true)
    {items : String → List Activation} (enlists : w.Enlists items) {launcher : Launcher}
    (starts : ∃ server, launcher language = .ok server) (name : String) (path : Path)
    (text : String) (before : w.Cooperates language)
    (after : (w.activate launcher name path text).1.1.Cooperates language) :
    (w.activate launcher name path text).1.1.Hosts language
      (acts ++ if name = language then [(path, text)] else []) := by
  by_cases same : name = language
  · subst same
    rw [if_pos rfl]
    cases h with
    | absent unopened free =>
      -- The first document of the language opens the lane.
      obtain ⟨server, starts⟩ := starts
      have out : (w.activate launcher name path text).1.1 =
          ((w.openLane name server).activateIn w.lanes.length path text).1.1 := by
        simp only [Workspace.activate, free, starts]
      rw [out] at after ⊢
      obtain ⟨bears, open_⟩ := (bears_openLane unopened server).activate rooted rfl path text
        (cooperates_openLane unopened server) after
      refine .present ?_ bears open_ (by simp)
      rw [registered_activateIn]
      exact Entries.find?_put_same name w.lanes.length w.registered
    | @present n l _ found bears open_ visited =>
      have out : w.activate launcher name path text = w.activateIn n path text := by
        simp only [Workspace.activate, found]
      rw [out] at after ⊢
      obtain ⟨bears', still⟩ := bears.activate rooted open_ path text before after
      refine .present ?_ bears' still (by simp)
      rw [registered_activateIn]
      exact found
  · rw [if_neg same, List.append_nil]
    cases h with
    | absent unopened free =>
      rcases activate_opens launcher w name path text with
        ⟨n, -, out⟩ | ⟨-, ⟨e, -, out⟩ | ⟨server, -, out⟩⟩ <;> rw [out]
      · refine .absent ?_ ?_
        · rw [tongues_activateIn]
          exact unopened
        · rw [registered_activateIn]
          exact free
      · exact .absent unopened free
      · refine .absent ?_ ?_ <;> dsimp only
        · rw [tongues_activateIn, tongues_openLane, List.mem_append, List.mem_singleton]
          exact not_or.mpr ⟨unopened, Ne.symm same⟩
        · rw [registered_activateIn, Workspace.openLane, Entries.find?_put_ne (Ne.symm same)]
          exact free
    | present found bears open_ visited =>
      have kept :=
        find?_undergo (d := .activate launcher name path text) found (by simp [Deed.Leaves])
      exact .present kept (bears.activate_other enlists launcher same path text) open_ visited

/-- When the workspace is left the lane is still to be passed. -/
theorem Hosts.leave (h : w.Hosts language acts) (stays : w.leaving = none) (grace : Nat) :
    (w.leave grace).Parts language acts := by
  have left : w.leave grace =
      { w with leaving := some ⟨grace, w.registered.map Prod.snd⟩, registered := [] } := by
    simp only [Workspace.leave, stays]
  rw [left]
  cases h with
  | absent unopened => exact .absent unopened
  | @present n l _ found bears open_ visited =>
    refine .present (bears.aside bears.lane bears.only rfl) (.inr ⟨_, rfl, ?_⟩) visited
    exact List.mem_map.mpr ⟨(language, n), Entries.mem_of_find? found, rfl⟩

/-- The lane of a workspace that is left goes on until its server has been told to exit. -/
theorem Parts.undergo (h : w.Parts language acts) (rooted : w.folder.isAbsolute = true)
    {d : Deed} (quiet : d.Quiet) (before : w.Cooperates language)
    (after : (w.undergo d).Cooperates language) : (w.undergo d).Parts language acts := by
  cases h with
  | absent unopened =>
    refine .absent ?_
    rw [tongues_undergo quiet]
    exact unopened
  | present bears beyond visited =>
    obtain ⟨l', bears', works, -⟩ := bears.undergo rooted quiet before after
    refine .present bears' ?_ visited
    rcases beyond with told | awaits
    · exact .inl (works.sent.subset told)
    · rcases awaits.undergo bears.lane quiet with still | passed
      · exact .inr still
      · obtain ⟨items, faithful, -⟩ := bears.faithful
        exact .inl (works.sent.subset (faithful.told_of_farewell passed))

/-! ## What is sent -/

/-- The lanes of a language. -/
def lanesOf (w : Workspace) (language : String) : List Lane :=
  w.lanes.filter fun l => l.session.language = language

theorem lanesOf_of_not_mem (unopened : language ∉ w.tongues) : w.lanesOf language = [] := by
  refine List.filter_eq_nil_iff.mpr fun l member speaks => unopened ?_
  exact List.mem_map.mpr ⟨l, member, of_decide_eq_true speaks⟩

theorem Bears.lanesOf {n : Nat} {l : Lane} (h : w.Bears language n l acts) :
    w.lanesOf language = [l] := by
  obtain ⟨inside, here⟩ := List.getElem?_eq_some_iff.mp h.lane
  have other : ∀ m k, m ≠ n → w.lanes[m]? = some k → k.session.language ≠ language := by
    intro m k different hk speaks
    refine different (h.only m ?_)
    rw [tongues, List.getElem?_map, hk, Option.map_some, speaks]
  have before : (w.lanes.take n).filter (fun l => l.session.language = language) = [] := by
    refine List.filter_eq_nil_iff.mpr fun k member speaks => ?_
    obtain ⟨m, hm⟩ := List.mem_iff_getElem?.mp member
    have less : m < (w.lanes.take n).length := (List.getElem?_eq_some_iff.mp hm).1
    rw [List.length_take] at less
    rw [List.getElem?_take_of_lt (by omega)] at hm
    exact other m k (by omega) hm (of_decide_eq_true speaks)
  have after : (w.lanes.drop (n + 1)).filter (fun l => l.session.language = language) = [] := by
    refine List.filter_eq_nil_iff.mpr fun k member speaks => ?_
    obtain ⟨m, hm⟩ := List.mem_iff_getElem?.mp member
    rw [List.getElem?_drop] at hm
    exact other _ k (by omega) hm (of_decide_eq_true speaks)
  -- The lanes are those before it, the lane itself, and those after it.
  rw [Workspace.lanesOf, ← List.take_append_drop n w.lanes, List.drop_eq_getElem_cons inside, here,
    List.filter_append, List.filter_cons_of_pos (by simp [h.speaks]), before, after,
    List.nil_append]

/-- The documents of visits, in a language and seen from a folder. -/
def Presents (origin : Path × InitializeParams) (language : String) (documents : List Document)
    (visits : List (Path × String)) : Prop :=
  documents.map Except.ok =
    (Lane.itinerary [] visits).map (Activation.document origin.1 language)

/-- All that a server is told. -/
def told (origin : Path × InitializeParams) (documents : List Document) : List Message :=
  Message.script origin.2 documents ++ [.bye, .leave]

section Sent

variable {n : Nat} {l : Lane} {documents : List Document} {all : List (Path × String)}

theorem Bears.opens (h : w.Bears language n l acts)
    (presents : Presents w.origin language documents (Lane.visits none all)) :
    l.Opens documents (Lane.itinerary [] (Lane.visits none all)) := by
  have folder : l.folder = w.origin.1 := congrArg Prod.fst h.origin
  rw [Lane.Opens, folder, h.speaks]
  exact presents

/-- A lane tells its server of no other documents than those that are to be activated. -/
theorem Bears.sent (h : w.Bears language n l acts) (within : acts <+: all)
    (whole : l.accepting = false → acts = all)
    (presents : Presents w.origin language documents (Lane.visits none all)) :
    l.session.sent <+: told w.origin documents := by
  obtain ⟨items, faithful, visits⟩ := h.faithful
  have itinerary := faithful.holds.queues.itinerary
  rw [visits] at itinerary
  have greeting : l.greeting = w.origin.2 := congrArg Prod.snd h.origin
  rw [told, ← greeting]
  refine faithful.sent_of_plan (h.opens presents) ?_ fun shut => ?_
  · obtain ⟨more, rfl⟩ := within
    obtain ⟨rest, split⟩ := Lane.visits_extend none acts more
    rw [itinerary, ← split, Lane.itinerary_append]
    exact List.prefix_append _ _
  · rw [itinerary, whole shut]

/-- A server that was told to exit was told all. -/
theorem Bears.sent_all (h : w.Bears language n l acts) (beyond : .leave ∈ l.session.sent)
    (presents : Presents w.origin language documents (Lane.visits none acts)) :
    l.session.sent = told w.origin documents := by
  obtain ⟨items, faithful, visits⟩ := h.faithful
  have itinerary := faithful.holds.queues.itinerary
  rw [visits] at itinerary
  have greeting : l.greeting = w.origin.2 := congrArg Prod.snd h.origin
  obtain ⟨ds, opens, sent⟩ := faithful.whole beyond
  rw [itinerary] at opens
  rw [sent, told, ← greeting, opens.unique (h.opens presents)]

end Sent

end Workspace

end LanguageClient
