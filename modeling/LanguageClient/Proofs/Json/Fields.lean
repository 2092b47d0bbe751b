import LanguageClient.Proofs.Json.Records
import LanguageClient.Protocol.Diagnostic
import Mathlib.Data.List.Forall2

/-!
# Fields and items

How the fields of a record and the items of a list are read, one by one.  Changing one field of a
value, in the place where the value gives it, changes what is read of that field and of no other.
-/

set_option autoImplicit false

namespace LanguageClient.Json

variable {α : Type} {decode : Json → Option α}

/-! ## Items -/

theorem mapM_eq_some_iff {items : List Json} {xs : List α} :
    items.mapM decode = some xs ↔ List.Forall₂ (fun v x => decode v = some x) items xs := by
  induction items generalizing xs with
  | nil => cases xs <;> simp
  | cons v items ih =>
    simp only [List.mapM_cons, Option.bind_eq_bind, Option.bind_eq_some_iff, Option.pure_def,
      Option.some.injEq, ih]
    constructor
    · rintro ⟨x, first, rest, others, rfl⟩
      exact .cons first others
    · rintro (_ | ⟨first, others⟩)
      exact ⟨_, first, _, others, rfl⟩

/-- A list is read exactly if all of its items are. -/
theorem list?_eq_some_iff {v : Json} {xs : List α} :
    list? decode v = some xs ↔
      ∃ items, v = .arr items ∧ List.Forall₂ (fun v x => decode v = some x) items xs := by
  cases v with
  | arr items => simp [list?, mapM_eq_some_iff]
  | _ => simp [list?]

theorem decoded_of_list? {v : Json} {xs : List α} (h : list? decode v = some xs) {x : α}
    (member : x ∈ xs) : ∃ item, decode item = some x := by
  obtain ⟨items, -, each⟩ := list?_eq_some_iff.mp h
  clear h
  induction each with
  | nil => cases member
  | cons first _ ih =>
    rcases List.mem_cons.mp member with rfl | later
    · exact ⟨_, first⟩
    · exact ih later

/-- If two changes of each item by its place differ only in what is hidden of the decoded items,
then so do the lists that are read. -/
theorem map_mapIdx_list? {first second : Nat → Json → Json} {hide : Nat → α → α}
    (alike : ∀ i v, (decode (first i v)).map (hide i) = (decode (second i v)).map (hide i))
    (items : List Json) :
    (list? decode (.arr (items.mapIdx first))).map (List.mapIdx hide) =
      (list? decode (.arr (items.mapIdx second))).map (List.mapIdx hide) := by
  induction items generalizing first second hide with
  | nil => rfl
  | cons v items ih =>
    -- The head and the rest are changed, read and hidden apart.
    have apart : ∀ change : Nat → Json → Json,
        (list? decode (.arr ((v :: items).mapIdx change))).map (List.mapIdx hide) =
          ((decode (change 0 v)).map (hide 0)).bind fun x =>
            ((list? decode (.arr (items.mapIdx fun i => change (i + 1)))).map
              (List.mapIdx fun i => hide (i + 1))).map (x :: ·) := by
      intro change
      simp only [list?, List.mapIdx_cons, List.mapM_cons]
      cases decode (change 0 v) with
      | none => rfl
      | some x => cases (items.mapIdx fun i => change (i + 1)).mapM decode <;> simp
    rw [apart, apart, alike, ih fun i v => alike (i + 1) v]

/-! ## Changing one field -/

/-- A value with one of its fields changed, if it gives it: the member of an object or the item
of an array. -/
def changing (v : Json) (index : Nat) (key : String) (change : Json → Json) : Json :=
  match v with
  | .obj members => .obj (members.map fun (k, v) => (k, if k = key then change v else v))
  | .arr items => .arr (items.modify index change)
  | v => v

theorem changing_id (v : Json) (index : Nat) (key : String) : v.changing index key id = v := by
  cases v with
  | obj members => simp [changing]
  | arr items => simp [changing]
  | _ => rfl

theorem find?_map_keyed (key : String) (change : String → Json → Json) (members : Members) :
    Entries.find? key (members.map fun (k, v) => (k, change k v)) =
      (Entries.find? key members).map (change key) := by
  induction members with
  | nil => rfl
  | cons e members ih =>
    by_cases same : e.1 = key
    · simp [Entries.find?, same]
    · simp [Entries.find?, same, ih]

namespace Record

/-- A record with one of its fields changed, if it is given. -/
def changing (r : Record) (index : Nat) (key : String) (change : Json → Json) : Record :=
  match r with
  | .named members => .named (members.map fun (k, v) => (k, if k = key then change v else v))
  | .listed items => .listed (items.modify index change)

variable {index other : Nat} {key name : String}

theorem get?_changing_same (r : Record) (index : Nat) (key : String) (change : Json → Json) :
    (r.changing index key change).get? index key = (r.get? index key).map change := by
  cases r with
  | named members =>
    rw [changing, get?, find?_map_keyed key fun k v => if k = key then change v else v]
    simp only [if_true, get?]
  | listed items => simp [changing, get?]

theorem get?_changing_ne (r : Record) (place : other ≠ index) (different : name ≠ key)
    (change : Json → Json) :
    (r.changing index key change).get? other name = r.get? other name := by
  cases r with
  | named members =>
    rw [changing, get?, find?_map_keyed name fun k v => if k = key then change v else v]
    simp only [different, if_false, Option.map_id', get?]
  | listed items => simp [changing, get?, place.symm]

end Record

/-- A changed value is the changed record. -/
theorem record?_changing (v : Json) (size index : Nat) (key : String) (change : Json → Json) :
    (v.changing index key change).record? size =
      (v.record? size).map (·.changing index key change) := by
  cases v with
  | arr items =>
    by_cases most : items.length ≤ size <;>
      simp [Json.changing, record?, Record.changing, most]
  | _ => rfl

/-! ## Giving a member and leaving it out -/

/-- An object with a value given under a key; any other value stays as it is. -/
def giving (v : Json) (key : String) (value : Json) : Json :=
  match v with
  | .obj members => .obj (Entries.put key value members)
  | v => v

/-- An object without the member under a key; any other value stays as it is. -/
def leavingOut (v : Json) (key : String) : Json :=
  match v with
  | .obj members => .obj (Entries.remove key members)
  | v => v

variable {key other : String}

theorem get?_giving_same (v : Json) (key : String) (value : Json) :
    (v.giving key value).get? key = if v.isObject then some value else none := by
  cases v with
  | obj members => exact Entries.find?_put_same key value members
  | _ => rfl

theorem get?_giving_ne (different : other ≠ key) (v value : Json) :
    (v.giving key value).get? other = v.get? other := by
  cases v with
  | obj members => exact Entries.find?_put_ne different
  | _ => rfl

theorem get?_leavingOut_same (v : Json) (key : String) : (v.leavingOut key).get? key = none := by
  cases v with
  | obj members => exact Entries.find?_remove_same key members
  | _ => rfl

theorem get?_leavingOut_ne (different : other ≠ key) (v : Json) :
    (v.leavingOut key).get? other = v.get? other := by
  cases v with
  | obj members => exact Entries.find?_remove_ne different
  | _ => rfl

/-- The other members do not tell whether one is given or left out. -/
theorem get?_giving_eq_leavingOut (different : other ≠ key) (v value : Json) :
    (v.giving key value).get? other = (v.leavingOut key).get? other := by
  rw [get?_giving_ne different, get?_leavingOut_ne different]

end LanguageClient.Json
