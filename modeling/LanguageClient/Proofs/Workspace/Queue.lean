import LanguageClient.Proofs.Workspace.Itinerary
import LanguageClient.Proofs.Workspace.Steps

/-!
# What is queued in a lane

An activation of a lane is queued unless its document is active already or the courier has
ended, and nothing else is ever queued.  The activations that were queued are an itinerary,
and the active document and the versions are those of its visits (`Queues`).
-/

set_option autoImplicit false

namespace LanguageClient

namespace Lane

variable {l l' : Lane} {items : List Activation}

/-! ## Activations of a lane -/

/-- What an activation does: nothing for the document that is active, nothing but using a
version up when the courier has ended, and otherwise it is queued. -/
theorem activate_cases (l : Lane) (path : Path) (text : String) :
    (l.isActive path = true ∧ l.activate path text = (l, .ok none)) ∨
      l.isActive path = false ∧
        (l.courier = .ended ∧ l.activate path text =
            ({ l with versions := setVersion path (l.version path + 1) l.versions },
              .error .sessionTerminated) ∨
          l.courier ≠ .ended ∧ l.activate path text =
            ({ l with
                versions := setVersion path (l.version path + 1) l.versions
                queue := l.queue ++ [⟨l.active, path, text, l.version path + 1⟩]
                active := some path },
              .ok (some ⟨l.active, path, text, l.version path + 1⟩))) := by
  unfold activate
  by_cases already : l.isActive path = true
  · exact .inl ⟨already, if_pos already⟩
  · refine .inr ⟨Bool.eq_false_iff.mpr already, ?_⟩
    rw [if_neg already]
    by_cases ended : l.courier = .ended
    · exact .inl ⟨ended, if_pos ended⟩
    · exact .inr ⟨ended, if_neg ended⟩

/-- The activations that have been queued in a lane so far. -/
structure Queues (l : Lane) (items : List Activation) : Prop where
  itinerary : items = itinerary [] (items.map Activation.visit)
  leads : ∀ item ∈ items, ∀ p, item.previous = some p → p.same item.path = false
  active : l.active = (items.map Activation.path).getLast?
  versions : l.courier ≠ .ended → ∀ p, l.version p = occurrences (items.map Activation.path) p

/-- A lane in which nothing is queued. -/
structure Unqueued (l l' : Lane) : Prop where
  active : l'.active = l.active
  versions : l'.versions = l.versions
  ended : l.courier = .ended → l'.courier = .ended

theorem Queues.unqueued (h : l.Queues items) (same : Unqueued l l') : l'.Queues items := by
  refine ⟨h.itinerary, h.leads, same.active.trans h.active, ?_⟩
  intro on p
  rw [Lane.version, same.versions, ← Lane.version]
  exact h.versions (fun ended => on (same.ended ended)) p

theorem map_path_visit (items : List Activation) :
    (items.map Activation.visit).map Prod.fst = items.map Activation.path := by
  rw [List.map_map]
  rfl

theorem Queues.push (h : l.Queues items) {path : Path} {text : String} (on : l.courier ≠ .ended)
    (new : l.isActive path = false)
    (active : l'.active = some path)
    (versions : l'.versions = setVersion path (l.version path + 1) l.versions) :
    l'.Queues (items ++ [⟨l.active, path, text, l.version path + 1⟩]) := by
  have counts : l.Counts (items.map Activation.visit) := by
    refine ⟨?_, ?_⟩
    · rw [map_path_visit]
      exact h.active
    · rw [map_path_visit]
      exact h.versions on
  have queued := counts.queued path text
  have more : l'.Counts (items.map Activation.visit ++ [(path, text)]) :=
    counts.snoc active versions
  have visits (item : Activation) (here : item.visit = (path, text)) :
      (items ++ [item]).map Activation.visit = items.map Activation.visit ++ [(path, text)] := by
    rw [List.map_append, List.map_singleton, here]
  refine ⟨?_, ?_, ?_, ?_⟩
  · rw [visits _ rfl, queued, ← h.itinerary]
  · intro item mem p from_
    rcases List.mem_append.mp mem with old | here
    · exact h.leads item old p from_
    · rw [List.mem_singleton.mp here] at from_ ⊢
      dsimp only at from_
      rw [isActive, from_] at new
      simpa using new
  · rw [more.active, ← map_path_visit, visits _ rfl]
  · intro _ p
    rw [more.versions, ← map_path_visit, visits _ rfl]

/-- The activation that was queued, if any was. -/
def newly : Queued → List Activation
  | .ok item => item.toList
  | .error _ => []

theorem Queues.activate (h : l.Queues items) (path : Path) (text : String) :
    (l.activate path text).1.Queues (items ++ newly (l.activate path text).2) := by
  rcases activate_cases l path text with
    ⟨-, out⟩ | ⟨new, ⟨ended, out⟩ | ⟨on, out⟩⟩ <;> rw [out]
  · simpa [newly] using h
  · rw [newly, List.append_nil]
    exact ⟨h.itinerary, h.leads, h.active, fun on => absurd ended on⟩
  · exact h.push on new rfl rfl

theorem queues_start (session : Session) (greeting : InitializeParams) (folder : Path) :
    (start session greeting folder).Queues [] :=
  ⟨rfl, by simp, rfl, fun _ _ => rfl⟩

/-! ## Steps of a lane -/

theorem Unqueued.refl (l : Lane) : Unqueued l l := ⟨rfl, rfl, id⟩

theorem unqueued_step (l : Lane) {a : Action} (none : a.activated = []) :
    Unqueued l (l.step a).1 := by
  have step := stepped l a
  generalize (l.step a).1 = l' at step ⊢
  cases step with
  | session | released => exact ⟨rfl, rfl, id⟩
  | activated => cases none
  | called _ _ _ ended => exact ⟨rfl, rfl, ended⟩
  | aside rests =>
    refine ⟨rfl, rfl, fun ended => ?_⟩
    rcases rests with same | ⟨on, -⟩
    · exact same.trans ended
    · exact absurd ended on

/-- What a step queues. -/
def gained (l : Lane) : Action → List Activation
  | .activate path text => newly (l.activate path text).2
  | _ => []

theorem gained_of_quiet (l : Lane) {a : Action} (none : a.activated = []) : l.gained a = [] := by
  cases a with
  | activate => cases none
  | session | consume | close | bidFarewell | release => rfl

theorem gained_of_ended (ended : l.courier = .ended) (a : Action) : l.gained a = [] := by
  cases a with
  | activate path text =>
    rw [gained]
    rcases l.activate_cases path text with
      ⟨-, out⟩ | ⟨-, ⟨-, out⟩ | ⟨on, -⟩⟩
    · rw [out]
      rfl
    · rw [out]
      rfl
    · exact absurd ended on
  | session | consume | close | bidFarewell | release => rfl

theorem Queues.step (h : l.Queues items) (a : Action) :
    (l.step a).1.Queues (items ++ l.gained a) := by
  cases a with
  | activate path text => exact h.activate path text
  | session | consume | close | bidFarewell | release =>
    rw [gained_of_quiet l rfl, List.append_nil]
    exact h.unqueued (unqueued_step l rfl)

/-- What happens to a lane without an activation; it is released after the end of its
session only. -/
inductive Works (l : Lane) : Lane → Prop
  | rests : Works l l
  | steps {a : Action} (none : a.activated = [])
      (beyond : a = .release → l.farewellResult?.isSome = true) : Works l (l.step a).1

theorem Works.unqueued (h : l.Works l') : Unqueued l l' := by
  cases h with
  | rests => exact .refl l
  | steps none => exact unqueued_step l none

theorem Works.language (h : l.Works l') : l'.session.language = l.session.language := by
  cases h with
  | rests => rfl
  | steps => exact language_step l _

theorem Works.run (h : l.Works l') : ∃ as, l' = (l.run as).1 := by
  cases h with
  | rests => exact ⟨[], rfl⟩
  | @steps a none => exact ⟨[a], rfl⟩

theorem run_append (l : Lane) (as bs : List Action) :
    (l.run (as ++ bs)).1 = ((l.run as).1.run bs).1 := by
  induction as generalizing l with
  | nil => rfl
  | cons a as ih => exact ih (l.step a).1

end Lane

end LanguageClient
