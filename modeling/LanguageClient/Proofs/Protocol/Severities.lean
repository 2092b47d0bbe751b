import LanguageClient.Proofs.Json.Fields

/-!
# Severities and the rest of a report

A severity is read on its own: whatever stands in its place, the diagnostics of a report are read
as they are without it, and there is a severity exactly where an integer from one to four is given.
-/

set_option autoImplicit false

namespace LanguageClient

namespace Severity

/-- A severity is read from its own number alone. -/
theorem lenient_eq_some_iff {v : Json} {s : Severity} : lenient v = some s ↔ v = .int s.number := by
  constructor
  · intro h
    obtain ⟨n, number, known⟩ := Option.bind_eq_some_iff.mp h
    obtain rfl := number_of_ofNumber? known
    unfold Json.asNat? at number
    split at number
    · obtain ⟨-, same⟩ := Option.ite_none_right_eq_some.mp number
      rw [← Option.some.inj same]
      rfl
    · cases number
  · rintro rfl
    cases s <;> rfl

theorem isSome_lenient_iff {v : Json} :
    (lenient v).isSome = true ↔ ∃ n : Int, 1 ≤ n ∧ n ≤ 4 ∧ v = .int n := by
  rw [Option.isSome_iff_exists]
  simp only [lenient_eq_some_iff]
  constructor
  · rintro ⟨s, rfl⟩
    exact ⟨s.number, by cases s <;> decide, by cases s <;> decide, rfl⟩
  · rintro ⟨n, low, high, rfl⟩
    obtain rfl | rfl | rfl | rfl : n = 1 ∨ n = 2 ∨ n = 3 ∨ n = 4 := by omega
    · exact ⟨.error, rfl⟩
    · exact ⟨.warning, rfl⟩
    · exact ⟨.information, rfl⟩
    · exact ⟨.hint, rfl⟩

end Severity

namespace Diagnostic

/-! ## One diagnostic -/

/-- A diagnostic without its severity. -/
def ungraded (d : Diagnostic) : Diagnostic := { d with severity := none }

/-- What a record says as a diagnostic besides a severity. -/
def ungraded? (r : Json.Record) : Option Diagnostic := do
  let span ← r.required 0 "range" Span.ofJson?
  let code ← r.optional 2 "code" some
  let source ← r.optional 3 "source" Json.asString?
  let message ← r.required 4 "message" Json.asString?
  return { span, severity := none, code, source, message }

/-- The value that a diagnostic gives for its severity. -/
def severityGiven (v : Json) : Option Json :=
  (v.record? 5).bind (·.get? 1 "severity")

/-- The severity of a diagnostic and all else are read apart. -/
theorem ofJson?_eq (v : Json) :
    ofJson? v = (v.record? 5).bind fun r => (ungraded? r).map fun d =>
      { d with severity := (r.get? 1 "severity").bind Severity.lenient } := by
  simp only [ofJson?, ungraded?, Option.bind_eq_bind, Option.map_bind, Function.comp_def,
    Option.pure_def, Option.map_some]

theorem ungraded?_congr {r s : Json.Record}
    (same : ∀ index key, index ≠ 1 → key ≠ "severity" → r.get? index key = s.get? index key) :
    ungraded? r = ungraded? s := by
  simp only [ungraded?, Json.Record.required, Json.Record.optional,
    same 0 "range" (by decide) (by decide), same 2 "code" (by decide) (by decide),
    same 3 "source" (by decide) (by decide), same 4 "message" (by decide) (by decide)]

/-- What is read of a diagnostic besides its severity does not depend on the value given for the
severity. -/
theorem map_ungraded_ofJson?_changing (v : Json) (change : Json → Json) :
    (ofJson? (v.changing 1 "severity" change)).map ungraded = (ofJson? v).map ungraded := by
  have same : ∀ r : Json.Record, ungraded? (r.changing 1 "severity" change) = ungraded? r :=
    fun r => ungraded?_congr fun _ _ place different => r.get?_changing_ne place different change
  rw [ofJson?_eq, ofJson?_eq, Json.record?_changing]
  cases v.record? 5 with
  | none => rfl
  | some r =>
    simp only [Option.map_some, Option.bind_some, same, Option.map_map]
    rfl

/-- A severity that is left out of an object reads as one that is null. -/
theorem ofJson?_leavingOut (v : Json) :
    ofJson? (v.leavingOut "severity") = ofJson? (v.giving "severity" .null) := by
  cases v with
  | obj members =>
    have same : ungraded? (.named (Entries.remove "severity" members)) =
        ungraded? (.named (Entries.put "severity" .null members)) :=
      ungraded?_congr fun _ _ _ different =>
        (Entries.find?_remove_ne different).trans (Entries.find?_put_ne different).symm
    have absent := Entries.find?_remove_same "severity" members
    have null := Entries.find?_put_same "severity" Json.null members
    rw [ofJson?_eq, ofJson?_eq]
    simp only [Json.leavingOut, Json.giving, Json.record?, Option.bind_some, same,
      Json.Record.get?, absent, null]
    rfl
  | _ => rfl

/-- What the severity of a diagnostic that was read has to do with the value given for it. -/
structure Graded (v : Json) (d : Diagnostic) : Prop where
  /-- There is one exactly if an integer from one to four is given. -/
  isSome_iff : d.severity.isSome = true ↔
    ∃ n : Int, 1 ≤ n ∧ n ≤ 4 ∧ severityGiven v = some (.int n)
  /-- It is the one with the number that is given. -/
  number : ∀ s, d.severity = some s → severityGiven v = some (.int s.number)

theorem graded_of_ofJson? {v : Json} {d : Diagnostic} (h : ofJson? v = some d) : Graded v d := by
  rw [ofJson?_eq] at h
  obtain ⟨r, record, read⟩ := Option.bind_eq_some_iff.mp h
  obtain ⟨rest, -, rfl⟩ := Option.map_eq_some_iff.mp read
  have given : severityGiven v = r.get? 1 "severity" := by rw [severityGiven, record]; rfl
  constructor
  · rw [given]
    cases r.get? 1 "severity" with
    | none => simp
    | some value => simpa using Severity.isSome_lenient_iff
  · intro s is
    obtain ⟨value, there, grade⟩ := Option.bind_eq_some_iff.mp is
    rw [given, there, Severity.lenient_eq_some_iff.mp grade]

end Diagnostic

namespace Publication

/-! ## The diagnostics of a report -/

/-- An array with each of its items changed by its place; any other value stays as it is. -/
def changingItems (change : Nat → Json → Json) : Json → Json
  | .arr items => .arr (items.mapIdx change)
  | v => v

/-- A report's value with each of its diagnostics' values changed by its place. -/
def changingDiagnostics (v : Json) (change : Nat → Json → Json) : Json :=
  v.changing 2 "diagnostics" (changingItems change)

/-- A report with each of its diagnostics changed by its place. -/
def mapDiagnostics (p : Publication) (change : Nat → Diagnostic → Diagnostic) : Publication :=
  { p with diagnostics := p.diagnostics.mapIdx change }

/-- The values that a report gives for its diagnostics. -/
def diagnosticsGiven (v : Json) : Option (List Json) :=
  ((v.record? 3).bind (·.get? 2 "diagnostics")).bind (Json.list? some)

/-- What a record says as a report besides the diagnostics. -/
def heading? (r : Json.Record) : Option (String × Option Int) := do
  let uri ← r.required 0 "uri" Json.asString?
  let version ← r.optional 1 "version" Json.int32?
  return (uri, version)

/-- The diagnostics of a report and all else are read apart. -/
theorem ofJson?_eq (v : Json) :
    ofJson? v = (v.record? 3).bind fun r => (heading? r).bind fun heading =>
      (r.required 2 "diagnostics" (Json.list? Diagnostic.ofJson?)).map fun diagnostics =>
        ⟨heading.1, heading.2, diagnostics⟩ := by
  simp only [ofJson?, heading?, Option.bind_eq_bind, Option.pure_def, Option.bind_assoc,
    Option.bind_some, Option.map_eq_bind, Function.comp_def]

theorem heading?_changing (r : Json.Record) (change : Json → Json) :
    heading? (r.changing 2 "diagnostics" change) = heading? r := by
  simp only [heading?, Json.Record.required, Json.Record.optional,
    r.get?_changing_ne (by decide : 0 ≠ 2) (by decide : "uri" ≠ "diagnostics") change,
    r.get?_changing_ne (by decide : 1 ≠ 2) (by decide : "version" ≠ "diagnostics") change]

/-- If two changes of each diagnostic's value differ only in what is hidden of the diagnostics,
then so do the reports that are read. -/
theorem map_ofJson?_changing {first second : Nat → Json → Json}
    {hide : Nat → Diagnostic → Diagnostic}
    (alike : ∀ i v, (Diagnostic.ofJson? (first i v)).map (hide i) =
      (Diagnostic.ofJson? (second i v)).map (hide i)) (v : Json) :
    (ofJson? (changingDiagnostics v first)).map (·.mapDiagnostics hide) =
      (ofJson? (changingDiagnostics v second)).map (·.mapDiagnostics hide) := by
  simp only [ofJson?_eq, changingDiagnostics, Json.record?_changing]
  cases v.record? 3 with
  | none => rfl
  | some r =>
    simp only [Option.map_some, Option.bind_some, heading?_changing, Json.Record.required,
      Json.Record.get?_changing_same]
    cases heading? r with
    | none => rfl
    | some heading =>
      have hidden : ∀ o : Option (List Diagnostic),
          (o.map fun diagnostics => Publication.mk heading.1 heading.2 diagnostics).map
              (·.mapDiagnostics hide) =
            (o.map (List.mapIdx hide)).map fun diagnostics =>
              ⟨heading.1, heading.2, diagnostics⟩ := by
        intro o
        cases o <;> rfl
      rw [Option.bind_some, Option.bind_some, hidden, hidden]
      cases r.get? 2 "diagnostics" with
      | none => rfl
      | some list =>
        cases list with
        | arr items => exact congrArg _ (Json.map_mapIdx_list? alike items)
        | _ => rfl

theorem mapIdx_self {α : Type} (xs : List α) : (xs.mapIdx fun _ x => x) = xs := by
  apply List.ext_getElem?
  simp

theorem changingDiagnostics_self (v : Json) : (changingDiagnostics v fun _ item => item) = v := by
  have self : changingItems (fun _ item => item) = id := by
    funext list
    cases list with
    | arr items => exact congrArg Json.arr (mapIdx_self items)
    | _ => rfl
  rw [changingDiagnostics, self, Json.changing_id]

theorem mapDiagnostics_self (p : Publication) : (p.mapDiagnostics fun _ d => d) = p := by
  rw [mapDiagnostics, mapIdx_self]

/-- The diagnostics that are read are those of the values given, in order. -/
theorem graded_of_ofJson? {v : Json} {p : Publication} (h : ofJson? v = some p) :
    ∃ items, diagnosticsGiven v = some items ∧
      List.Forall₂ Diagnostic.Graded items p.diagnostics := by
  rw [ofJson?_eq] at h
  obtain ⟨r, record, read⟩ := Option.bind_eq_some_iff.mp h
  obtain ⟨heading, -, rest⟩ := Option.bind_eq_some_iff.mp read
  obtain ⟨diagnostics, listed, rfl⟩ := Option.map_eq_some_iff.mp rest
  obtain ⟨list, given, decoded⟩ := Option.bind_eq_some_iff.mp listed
  obtain ⟨items, rfl, each⟩ := Json.list?_eq_some_iff.mp decoded
  refine ⟨items, ?_, each.imp fun _ _ => Diagnostic.graded_of_ofJson?⟩
  rw [diagnosticsGiven, record, Option.bind_some, given, Option.bind_some,
    Json.list?_eq_some_iff]
  exact ⟨items, rfl, List.forall₂_same.mpr fun _ _ => rfl⟩

/-! ## Severities in a report -/

/-- A report's value with other values for the severities of some of its diagnostics, by place.
Where a diagnostic gives none, it stays without. -/
def regraded (v : Json) (grades : Nat → Option Json) : Json :=
  changingDiagnostics v fun i item =>
    match grades i with
    | some grade => item.changing 1 "severity" fun _ => grade
    | none => item

/-- A report without the severities of the diagnostics at some places. -/
def ungradedAt (places : Nat → Bool) (p : Publication) : Publication :=
  p.mapDiagnostics fun i d => if places i then d.ungraded else d

/-- Whatever values take the place of the severities that the diagnostics of a report give, the
report is read or refused as before, and nothing but those severities is read in another way.
There is a severity exactly where an integer from one to four is given.  A severity that is left
out of an object reads as one that is null. -/
theorem severities_read_apart (v : Json) :
    (∀ grades : Nat → Option Json,
      (ofJson? (regraded v grades)).map (ungradedAt fun i => (grades i).isSome) =
        (ofJson? v).map (ungradedAt fun i => (grades i).isSome)) ∧
    (∀ p, ofJson? v = some p → ∃ items, diagnosticsGiven v = some items ∧
      List.Forall₂ Diagnostic.Graded items p.diagnostics) ∧
    ∀ places : Nat → Bool,
      ofJson? (changingDiagnostics v fun i item =>
          if places i then item.leavingOut "severity" else item) =
        ofJson? (changingDiagnostics v fun i item =>
          if places i then item.giving "severity" .null else item) := by
  refine ⟨fun grades => ?_, fun p => graded_of_ofJson?, fun places => ?_⟩
  · have alike : ∀ i item,
        (Diagnostic.ofJson? (match grades i with
          | some grade => Json.changing item 1 "severity" fun _ => grade
          | none => item)).map (fun d => if (grades i).isSome then d.ungraded else d) =
        (Diagnostic.ofJson? item).map fun d => if (grades i).isSome then d.ungraded else d := by
      intro i item
      cases grades i with
      | none => rfl
      | some grade => exact Diagnostic.map_ungraded_ofJson?_changing item fun _ => grade
    have read := map_ofJson?_changing alike v
    rwa [changingDiagnostics_self] at read
  · have alike : ∀ i item,
        (Diagnostic.ofJson? (if places i then item.leavingOut "severity" else item)).map
            (fun d => d) =
        (Diagnostic.ofJson? (if places i then item.giving "severity" .null else item)).map
            fun d => d := by
      intro i item
      cases places i with
      | false => rfl
      | true => exact congrArg _ (Diagnostic.ofJson?_leavingOut item)
    have read := map_ofJson?_changing alike v
    simpa only [mapDiagnostics_self, Option.map_id'] using read

/-- Two diagnostics, an object with an unknown severity and an array with a warning, are read, and
so they are with a string and null in the place of these. -/
theorem severities_read_apart_strange :
    let span := Json.arr [.arr [.int 0, .int 1], .arr [.int 2, .int 3]]
    let first := Json.obj [("message", .str "m"), ("range", span), ("severity", .int 5)]
    let second := Json.arr [span, .int 2, .null, .null, .str "n"]
    let v := Json.obj [("diagnostics", .arr [first, second]), ("uri", .str "u")]
    let p : Publication := ⟨"u", none, [⟨⟨⟨0, 1⟩, ⟨2, 3⟩⟩, none, none, none, "m"⟩,
      ⟨⟨⟨0, 1⟩, ⟨2, 3⟩⟩, some .warning, none, none, "n"⟩]⟩
    let grades : Nat → Option Json := fun i => if i = 0 then some (.str "high") else some .null
    ofJson? v = some p ∧
      (∃ items, diagnosticsGiven v = some items ∧
        List.Forall₂ Diagnostic.Graded items p.diagnostics) ∧
      (ofJson? (regraded v grades)).map (ungradedAt fun i => (grades i).isSome) =
        some (ungradedAt (fun _ => true) p) := by
  intro span first second v p grades
  have read : ofJson? v = some p := by decide
  obtain ⟨others, graded, -⟩ := severities_read_apart v
  refine ⟨read, graded p read, ?_⟩
  rw [others grades, read]
  decide

end Publication

end LanguageClient
