import LanguageClient.Proofs.Json.Fields
import LanguageClient.Protocol.Capabilities

/-!
# Capabilities that are given as null

A server may give a capability as null instead of leaving it out.  For the synchronisation of
documents, for its two options, for hovering and for definitions this means the same, and a
provider that is null or false is none.  Completion is the exception: it counts as provided as
soon as its member is there, whatever the value.
-/

set_option autoImplicit false

namespace LanguageClient

namespace Capabilities

/-! ## What is read from each member -/

variable {v w : Json} {key : String}

theorem ofJson_congr (sync : syncOf v = syncOf w)
    (hover : enabled v "hoverProvider" = enabled w "hoverProvider")
    (completion : (v.get? "completionProvider").isSome = (w.get? "completionProvider").isSome)
    (definition : enabled v "definitionProvider" = enabled w "definitionProvider") :
    ofJson v = ofJson w := by
  simp only [ofJson, sync, hover, completion, definition]

/-- A reader of one member that takes null for absence. -/
structure Lenient {β : Type} (read : Json → β) (member : String) : Prop where
  /-- Nothing but the member is read. -/
  congr : ∀ {v w : Json}, v.get? member = w.get? member → read v = read w
  /-- A member that is null is read as one that is absent. -/
  null : ∀ {v w : Json}, v.get? member = some .null → w.get? member = none → read v = read w

/-- Giving null anywhere changes what is read in no other way than leaving the member out. -/
theorem Lenient.giving_null {β : Type} {read : Json → β} {member : String}
    (lenient : Lenient read member) (v : Json) (key : String) :
    read (v.giving key .null) = read (v.leavingOut key) := by
  by_cases own : member = key
  · subst own
    have absent := Json.get?_leavingOut_same v member
    have given := Json.get?_giving_same v member .null
    cases object : v.isObject with
    | true => exact lenient.null (by rw [given, object, if_pos rfl]) absent
    | false => exact lenient.congr (by rw [given, object, absent, if_neg Bool.false_ne_true])
  · exact lenient.congr (Json.get?_giving_eq_leavingOut own v .null)

theorem lenient_enabled (provider : String) : Lenient (enabled · provider) provider where
  congr same := by simp only [enabled, same]
  null null absent := by simp only [enabled, null, absent, Json.isObject]

theorem lenient_syncOf : Lenient syncOf "textDocumentSync" where
  congr same := by simp only [syncOf, same]
  null null absent := by
    simp only [syncOf, null, absent]
    rfl

/-- Whether a provider is given as null or as false. -/
def Denied (capabilities : Json) (key : String) : Prop :=
  capabilities.get? key = some .null ∨ capabilities.get? key = some (.bool false)

theorem enabled_of_denied (denied : Denied v key) : enabled v key = false := by
  rcases denied with null | no
  · simp [enabled, null, Json.isObject]
  · simp [enabled, no]

/-! ## The options of the synchronisation -/

/-- What options say of changes; if they say nothing, there is no synchronisation. -/
def changeOf (options : Json) : SyncKind :=
  ((options.get? "change").map SyncKind.ofJson).getD .off

/-- What options say of opening and closing; if they say nothing, it is not announced. -/
def openCloseOf (options : Json) : Bool :=
  ((options.get? "openClose").bind Json.asBool?).getD false

theorem syncOf_giving_options (v : Json) (options : Json.Members) :
    syncOf (v.giving "textDocumentSync" (.obj options)) =
      if v.isObject then (changeOf (.obj options), openCloseOf (.obj options))
      else (.off, false) := by
  rw [syncOf, Json.get?_giving_same]
  cases v <;> rfl

theorem lenient_changeOf : Lenient changeOf "change" where
  congr same := by simp only [changeOf, same]
  null null absent := by
    simp only [changeOf, null, absent]
    rfl

theorem lenient_openCloseOf : Lenient openCloseOf "openClose" where
  congr same := by simp only [openCloseOf, same]
  null null absent := by
    simp only [openCloseOf, null, absent]
    rfl

/-- An option that is null means the same as one that is left out. -/
theorem syncOf_giving_null_option (v options : Json) (key : String) :
    syncOf (v.giving "textDocumentSync" (options.giving key .null)) =
      syncOf (v.giving "textDocumentSync" (options.leavingOut key)) := by
  cases options with
  | obj members =>
    have change := lenient_changeOf.giving_null (.obj members) key
    have openClose := lenient_openCloseOf.giving_null (.obj members) key
    rw [Json.giving, Json.leavingOut] at change openClose
    rw [Json.giving.eq_def (.obj members), Json.leavingOut, syncOf_giving_options,
      syncOf_giving_options, change, openClose]
  | _ => rfl

/-! ## What null means -/

/-- For everything but completion a null means what leaving the member out means, and hovering
and definitions that are null or false are not provided.  Completion counts as provided with any
value, null and false among them, and its value changes nothing else. -/
theorem nulls_mean_absent (v : Json) :
    (∀ key, key ≠ "completionProvider" →
      ofJson (v.giving key .null) = ofJson (v.leavingOut key)) ∧
    (∀ (options : Json) (key : String),
      ofJson (v.giving "textDocumentSync" (options.giving key .null)) =
        ofJson (v.giving "textDocumentSync" (options.leavingOut key))) ∧
    (Denied v "hoverProvider" → (ofJson v).hover = false) ∧
    (Denied v "definitionProvider" → (ofJson v).definition = false) ∧
    ∀ value, ofJson (v.giving "completionProvider" value) =
      { ofJson (v.leavingOut "completionProvider") with completion := v.isObject } := by
  refine ⟨fun key other => ?_, fun options key => ?_, enabled_of_denied, enabled_of_denied,
    fun value => ?_⟩
  · exact ofJson_congr (lenient_syncOf.giving_null v key) ((lenient_enabled _).giving_null v key)
      (by rw [Json.get?_giving_eq_leavingOut other.symm]) ((lenient_enabled _).giving_null v key)
  · have others : ∀ name, name ≠ "textDocumentSync" →
        (v.giving "textDocumentSync" (options.giving key .null)).get? name =
          (v.giving "textDocumentSync" (options.leavingOut key)).get? name := by
      intro name different
      rw [Json.get?_giving_ne different, Json.get?_giving_ne different]
    exact ofJson_congr (syncOf_giving_null_option v options key)
      ((lenient_enabled _).congr (others _ (by decide))) (by rw [others _ (by decide)])
      ((lenient_enabled _).congr (others _ (by decide)))
  · have others : ∀ key, key ≠ "completionProvider" →
        (v.giving "completionProvider" value).get? key =
          (v.leavingOut "completionProvider").get? key :=
      fun _ different => Json.get?_giving_eq_leavingOut different v value
    have given : ((v.giving "completionProvider" value).get? "completionProvider").isSome =
        v.isObject := by
      rw [Json.get?_giving_same]
      cases v.isObject <;> rfl
    simp only [ofJson, given, lenient_syncOf.congr (others _ (by decide)),
      (lenient_enabled _).congr (others "hoverProvider" (by decide)),
      (lenient_enabled _).congr (others "definitionProvider" (by decide))]

/-- A server that gives hovering as null, definitions as false and the kind of changes as null
provides neither, and the kind of changes is as if it were left out. -/
theorem nulls_mean_absent_all_denied :
    let v := Json.ofMembers [("definitionProvider", .bool false), ("hoverProvider", .null)]
    let options := Json.ofMembers [("openClose", .bool true)]
    (ofJson v).hover = false ∧ (ofJson v).definition = false ∧
      ofJson (v.giving "textDocumentSync" (options.giving "change" .null)) =
        ⟨.off, true, false, false, false⟩ ∧
      ofJson (v.giving "hoverProvider" .null) = ⟨.off, false, false, false, false⟩ := by
  intro v options
  obtain ⟨null, option, hover, definition, -⟩ := nulls_mean_absent v
  refine ⟨hover (.inl rfl), definition (.inr rfl), ?_, ?_⟩
  · rw [option options "change"]
    rfl
  · rw [null "hoverProvider" (by decide)]
    rfl

/-- Completion that is null or false counts as provided, unlike completion that is left out. -/
theorem completion_null_provided :
    ofJson (.obj [("completionProvider", .null)]) ≠ ofJson (.obj []) ∧
      (ofJson (.obj [("completionProvider", .null)])).completion = true ∧
      (ofJson (.obj [("completionProvider", .bool false)])).completion = true := by
  decide

end Capabilities

end LanguageClient
