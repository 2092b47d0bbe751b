import LanguageClient.Proofs.Uri.Documents
import LanguageClient.Proofs.Workspace.Script

/-!
# Itineraries

What a list of visits to documents leads to in the queue of a lane: each activation starts
from the document of the one before it, and its version is the number of visits that the
document has had by then.  A lane keeps count of this as long as its courier is there
(`Counts`).
-/

set_option autoImplicit false

namespace LanguageClient

theorem latest_eq_getLast? {α : Type} (before : Option α) (as : List α) :
    latest before as = as.getLast?.or before := by
  induction as generalizing before with
  | nil => rfl
  | cons a as ih =>
    have rest := ih (some a)
    rw [latest, List.foldl_cons, ← latest, rest, List.getLast?_cons]
    cases as.getLast? <;> rfl

/-- The document of an activation and its text. -/
def Activation.visit (item : Activation) : Path × String := (item.path, item.text)

namespace Lane

/-- How often a document is among some paths. -/
def occurrences (paths : List Path) (path : Path) : Nat := paths.countP (·.same path)

theorem occurrences_append (ps qs : List Path) (path : Path) :
    occurrences (ps ++ qs) path = occurrences ps path + occurrences qs path :=
  List.countP_append

/-- The activations that visits lead to after some paths that were visited before. -/
def itinerary : List Path → List (Path × String) → List Activation
  | _, [] => []
  | before, (path, text) :: rest =>
    ⟨before.getLast?, path, text, occurrences before path + 1⟩ ::
      itinerary (before ++ [path]) rest

theorem itinerary_append (before : List Path) (vs ws : List (Path × String)) :
    itinerary before (vs ++ ws) =
      itinerary before vs ++ itinerary (before ++ vs.map Prod.fst) ws := by
  induction vs generalizing before with
  | nil => simp [itinerary]
  | cons v vs ih =>
    have rest := ih (before ++ [v.1])
    simp only [List.cons_append, itinerary, rest, List.map_cons, List.append_assoc]
    rfl

theorem map_visit_itinerary (before : List Path) (vs : List (Path × String)) :
    (itinerary before vs).map Activation.visit = vs := by
  induction vs generalizing before with
  | nil => rfl
  | cons v vs ih =>
    rw [itinerary, List.map_cons, ih]
    rfl

/-- An activation of an itinerary starts where the visits before it have led, and counts
them. -/
theorem getElem?_itinerary {before : List Path} {vs : List (Path × String)} {i : Nat}
    {item : Activation} (h : (itinerary before vs)[i]? = some item) :
    item.previous = (before ++ (vs.take i).map Prod.fst).getLast? ∧
      item.version = occurrences (before ++ (vs.take i).map Prod.fst) item.path + 1 := by
  induction vs generalizing before i with
  | nil => simp [itinerary] at h
  | cons v vs ih =>
    cases i with
    | zero =>
      obtain rfl := Option.some.inj h
      simp
    | succ i =>
      have rest := @ih (before ++ [v.1]) i h
      simpa using rest

/-- A version is higher than the number of visits before the itinerary. -/
theorem occurrences_lt_version {before : List Path} {vs : List (Path × String)} :
    ∀ item ∈ itinerary before vs, (occurrences before item.path : Int) < item.version := by
  intro item mem
  obtain ⟨i, hi⟩ := List.mem_iff_getElem?.mp mem
  obtain ⟨-, version⟩ := getElem?_itinerary hi
  rw [version, occurrences_append]
  omega

/-- Later activations of one document have higher versions. -/
theorem pairwise_version_itinerary (before : List Path) (vs : List (Path × String)) :
    (itinerary before vs).Pairwise fun a b =>
      a.path.same b.path = true → a.version < b.version := by
  induction vs generalizing before with
  | nil => exact .nil
  | cons v vs ih =>
    obtain ⟨path, text⟩ := v
    refine .cons ?_ (ih (before ++ [path]))
    intro b later same
    have higher := occurrences_lt_version b later
    have counted : occurrences before b.path = occurrences before path := by
      refine List.countP_congr fun p _ => ?_
      rw [Path.same_congr_right same]
    have one : occurrences [path] b.path = 1 := by simp [occurrences, same]
    rw [occurrences_append, counted, one] at higher
    dsimp only
    omega

/-! ## Versions of a lane -/

theorem find?_setVersion (path : Path) (version : Int) (versions : List (Path × Int)) (p : Path) :
    ((setVersion path version versions).find? (·.1.same p)).map (·.2) =
      if path.same p then some version else (versions.find? (·.1.same p)).map (·.2) := by
  induction versions with
  | nil =>
    rw [setVersion, List.find?_singleton]
    by_cases same : path.same p = true <;> simp [same]
  | cons v versions ih =>
    obtain ⟨q, w⟩ := v
    rw [setVersion]
    by_cases here : q.same path = true
    · have congr := Path.same_congr_left here p
      rw [if_pos here]
      by_cases same : path.same p = true <;> simp [congr, same]
    · rw [if_neg here]
      by_cases first : q.same p = true
      · -- The paths in front are those of other documents.
        have other : ¬ path.same p = true := by
          intro same
          rw [Path.same_congr_right same] at here
          exact here first
        simp [first, other]
      · simpa [List.find?_cons, first] using ih

theorem version_of_setVersion {l l' : Lane} {path : Path} {version : Int}
    (h : l'.versions = setVersion path version l.versions) (p : Path) :
    l'.version p = if path.same p then version else l.version p := by
  rw [Lane.version, h, find?_setVersion, Lane.version]
  split <;> rfl

/-- Whether the document that is active and the versions of a lane are those of some
visits. -/
structure Counts (l : Lane) (vs : List (Path × String)) : Prop where
  active : l.active = (vs.map Prod.fst).getLast?
  versions : ∀ p, l.version p = occurrences (vs.map Prod.fst) p

variable {l : Lane} {vs : List (Path × String)}

/-- What is queued for one more visit is the next activation of the itinerary. -/
theorem Counts.queued (h : l.Counts vs) (path : Path) (text : String) :
    itinerary [] (vs ++ [(path, text)]) =
      itinerary [] vs ++ [⟨l.active, path, text, l.version path + 1⟩] := by
  rw [itinerary_append, h.active, h.versions]
  rfl

theorem Counts.snoc (h : l.Counts vs) {l' : Lane} {path : Path} {text : String}
    (active : l'.active = some path)
    (versions : l'.versions = setVersion path (l.version path + 1) l.versions) :
    l'.Counts (vs ++ [(path, text)]) := by
  refine ⟨?_, ?_⟩
  · rw [active, List.map_append, List.map_singleton, List.getLast?_concat]
  · intro p
    have set := version_of_setVersion versions p
    rw [set, List.map_append, occurrences_append, h.versions, h.versions]
    by_cases here : path.same p = true
    · have counted : occurrences (vs.map Prod.fst) p = occurrences (vs.map Prod.fst) path := by
        refine List.countP_congr fun q _ => ?_
        rw [Path.same_congr_right here]
      rw [if_pos here, counted]
      simp [occurrences, here]
    · rw [if_neg here]
      simp [occurrences, here]

end Lane

end LanguageClient
