import LanguageClient.Session.Step

/-!
# Looking calls up

A call is found under its name.  Changing one call is seen under its name only, and the
order in which the calls stand is never seen.
-/

set_option autoImplicit false

namespace LanguageClient.Session

theorem mem_of_call? {s : Session} {n : Nat} {c : Call} (hc : s.call? n = some c) :
    (n, c) ∈ s.calls := by
  obtain ⟨⟨m, d⟩, found, same⟩ := Option.map_eq_some_iff.mp hc
  have named : m = n := by simpa using List.find?_some found
  obtain rfl : d = c := same
  rw [← named]
  exact List.mem_of_find?_eq_some found

/-! ## Changes of calls -/

/-- Changing the call under a name changes what is found under this name only. -/
theorem call?_updateCall (s : Session) (n m : Nat) (f : Call → Call) :
    (s.updateCall n f).call? m = if m = n then (s.call? m).map f else s.call? m := by
  simp only [call?, updateCall]
  induction s.calls with
  | nil => simp
  | cons e calls ih =>
    obtain ⟨k, c⟩ := e
    by_cases here : k = m
    · subst here
      by_cases same : k = n <;> simp [same]
    · simpa [List.find?_cons, here] using ih

theorem call?_updateCall_self {s : Session} {n : Nat} {c : Call} (h : s.call? n = some c)
    (f : Call → Call) : (s.updateCall n f).call? n = some (f c) := by
  rw [call?_updateCall, if_pos rfl, h, Option.map_some]

theorem call?_setStage_self {s : Session} {n : Nat} {c : Call} (h : s.call? n = some c)
    (stage : Stage) : (s.setStage n stage).call? n = some { c with stage := stage } :=
  call?_updateCall_self h _

theorem call?_askFor_self {s : Session} {n : Nat} {c : Call} (h : s.call? n = some c)
    (topic : Topic) (what : Ask) :
    (s.askFor n topic what).call? n = some { c with stage := .asking topic } :=
  call?_setStage_self h _

/-- A call that begins to wait is found like one that is only moved to the stage. -/
theorem call?_awaitAt (s : Session) (n m : Nat) (stage : Stage) :
    (s.awaitAt n stage).call? m = (s.setStage n stage).call? m := by
  simp only [call?, awaitAt, List.find?_append]
  generalize (s.setStage n stage).calls = calls
  have front : (calls.filter (·.1 != n)).find? (·.1 = m) =
      if m = n then none else calls.find? (·.1 = m) := by
    rw [List.find?_filter]
    by_cases same : m = n
    · subst same
      rw [if_pos rfl, List.find?_eq_none]
      intro e _
      simp
    · rw [if_neg same]
      congr 1
      funext e
      by_cases here : e.1 = m <;> simp [here, same]
  have back : (calls.filter (·.1 == n)).find? (·.1 = m) =
      if m = n then calls.find? (·.1 = m) else none := by
    rw [List.find?_filter]
    by_cases same : m = n
    · subst same
      rw [if_pos rfl]
      congr 1
      funext e
      by_cases here : e.1 = m <;> simp [here]
    · rw [if_neg same, List.find?_eq_none]
      intro e _
      by_cases here : e.1 = m <;> simp [here, same]
  rw [front, back]
  by_cases same : m = n <;> simp [same]

theorem call?_awaitAt_self {s : Session} {n : Nat} {c : Call} (h : s.call? n = some c)
    (stage : Stage) : (s.awaitAt n stage).call? n = some { c with stage := stage } := by
  rw [call?_awaitAt]
  exact call?_setStage_self h stage

theorem call?_answer_self {s : Session} {n : Nat} {topic : Topic} {c : Call}
    (h : s.call? n = some c) (asked : c.stage = .asking topic) (a : Answer) :
    ∃ d, (s.answer n topic a).call? n = some d ∧ d.goal = c.goal ∧
      d.stage = .answered topic a := by
  refine ⟨_, call?_updateCall_self h _, ?_, ?_⟩ <;> rw [if_pos asked]

theorem call?_answer_ne {s : Session} {n m : Nat} (other : m ≠ n) (topic : Topic) (a : Answer) :
    (s.answer n topic a).call? m = s.call? m := by
  rw [answer, call?_updateCall, if_neg other]

/-- A call that begins under a new name is found there. -/
theorem call?_begin {s : Session} {n : Nat} (new : s.call? n = none) (goal : Goal) (m : Nat) :
    (s.begin n goal).call? m = if m = n then some (.start goal) else s.call? m := by
  have absent : s.calls.find? (·.1 = n) = none := by simpa [call?] using new
  simp only [call?, begin, List.find?_append]
  by_cases same : m = n
  · subst same
    simp [absent]
  · have notIt : [(n, Call.start goal)].find? (·.1 = m) = none := by
      simp [Ne.symm same]
    rw [notIt, Option.or_none, if_neg same]

end LanguageClient.Session
