import LanguageClient.Proofs.Json.Records
import Mathlib.Order.MinMax

/-!
# Objects with their members as written

The members of an object may be written in any order and more than once.  `Json.tidy` puts the
members of every object in order and keeps of several with one key only the last; an ordered
value stays as it is, and neither depth nor the kind of the numbers grows.
-/

set_option autoImplicit false

namespace LanguageClient

namespace Json

mutual

/-- The value with the members of all its objects in order; of several with one key the last
is kept. -/
def tidy : Json → Json
  | .arr items => .arr (tidyItems items)
  | .obj members => ofMembers (tidyMembers members)
  | v => v

/-- The items, each of them tidied. -/
def tidyItems : List Json → List Json
  | [] => []
  | v :: rest => tidy v :: tidyItems rest

/-- The members with their values tidied, still as they are written. -/
def tidyMembers : List (String × Json) → List (String × Json)
  | [] => []
  | (k, v) :: rest => (k, tidy v) :: tidyMembers rest

end

variable {members : List (String × Json)}

theorem tidyItems_append (items rest : List Json) :
    tidyItems (items ++ rest) = tidyItems items ++ tidyItems rest := by
  induction items with
  | nil => rfl
  | cons v items ih => simp [tidyItems, ih]

theorem tidyMembers_append (members rest : List (String × Json)) :
    tidyMembers (members ++ rest) = tidyMembers members ++ tidyMembers rest := by
  induction members with
  | nil => rfl
  | cons e members ih => simp [tidyMembers, ih]

/-- The last value written under a key is found in the tidied object. -/
theorem get?_tidy (key : String) (members : List (String × Json)) :
    (tidy (.obj members)).get? key = (Entries.find? key members.reverse).map tidy := by
  have found : ∀ es : List (String × Json),
      Entries.find? key (tidyMembers es) = (Entries.find? key es).map tidy := by
    intro es
    induction es with
    | nil => rfl
    | cons e es ih => by_cases same : e.1 = key <;> simp [tidyMembers, Entries.find?, same, ih]
  have reverse : ∀ es : List (String × Json),
      (tidyMembers es).reverse = tidyMembers es.reverse := by
    intro es
    induction es with
    | nil => rfl
    | cons e es ih => simp [tidyMembers, tidyMembers_append, ih]
  show Entries.find? key (Entries.ofList (tidyMembers members)) = _
  rw [Entries.find?_ofList, reverse, found]

mutual

theorem ordered_tidy : ∀ v : Json, Ordered (tidy v)
  | .null | .bool _ | .int _ | .float _ | .str _ => trivial
  | .arr items => orderedItems_tidy items
  | .obj members => by
    refine ⟨Entries.increasing_ofList _, orderedMembers_iff.mpr fun e he => ?_⟩
    exact orderedMembers_iff.mp (orderedMembers_tidy members) e (Entries.mem_ofList he)

theorem orderedItems_tidy : ∀ items : List Json, OrderedItems (tidyItems items)
  | [] => trivial
  | v :: rest => ⟨ordered_tidy v, orderedItems_tidy rest⟩

theorem orderedMembers_tidy : ∀ members : List (String × Json),
    OrderedMembers (tidyMembers members)
  | [] => trivial
  | (_, v) :: rest => ⟨ordered_tidy v, orderedMembers_tidy rest⟩

end

mutual

/-- An ordered value is tidy. -/
theorem tidy_of_ordered : ∀ {v : Json}, Ordered v → tidy v = v
  | .null, _ | .bool _, _ | .int _, _ | .float _, _ | .str _, _ => rfl
  | .arr _, h => congrArg Json.arr (tidyItems_of_ordered h)
  | .obj members, h => by
    have same := tidyMembers_of_ordered h.2
    rw [tidy, same, ofMembers, Entries.ofList_of_increasing h.1]

theorem tidyItems_of_ordered : ∀ {items : List Json}, OrderedItems items → tidyItems items = items
  | [], _ => rfl
  | _ :: _, h => congrArg₂ List.cons (tidy_of_ordered h.1) (tidyItems_of_ordered h.2)

theorem tidyMembers_of_ordered : ∀ {members : List (String × Json)}, OrderedMembers members →
    tidyMembers members = members
  | [], _ => rfl
  | (k, _) :: _, h =>
    congrArg₂ List.cons (congrArg (k, ·) (tidy_of_ordered h.1)) (tidyMembers_of_ordered h.2)

end

theorem depthMembers_le_iff {n : Nat} :
    depthMembers members ≤ n ↔ ∀ e ∈ members, depth e.2 ≤ n := by
  induction members with
  | nil => simp [depthMembers]
  | cons e members ih => simp [depthMembers, ih]

mutual

/-- No value gets deeper when it is tidied. -/
theorem depth_tidy_le : ∀ v : Json, depth (tidy v) ≤ depth v
  | .null | .bool _ | .int _ | .float _ | .str _ => Nat.le_refl _
  | .arr items => Nat.succ_le_succ (depthItems_tidy_le items)
  | .obj members => by
    refine Nat.succ_le_succ (depthMembers_le_iff.mpr fun e he => ?_)
    exact depthMembers_le_iff.mp (depthMembers_tidy_le members) e (Entries.mem_ofList he)

theorem depthItems_tidy_le : ∀ items : List Json, depthItems (tidyItems items) ≤ depthItems items
  | [] => Nat.le_refl _
  | v :: rest => max_le_max (depth_tidy_le v) (depthItems_tidy_le rest)

theorem depthMembers_tidy_le : ∀ members : List (String × Json),
    depthMembers (tidyMembers members) ≤ depthMembers members
  | [] => Nat.le_refl _
  | (_, v) :: rest => max_le_max (depth_tidy_le v) (depthMembers_tidy_le rest)

end

mutual

/-- A value whose numbers are integers keeps only such numbers. -/
theorem integral_tidy : ∀ {v : Json}, Integral v → Integral (tidy v)
  | .null, h | .bool _, h | .int _, h | .float _, h | .str _, h => h
  | .arr _, h => integralItems_tidy h
  | .obj _, h => by
    refine integralMembers_iff.mpr fun e he => ?_
    exact integralMembers_iff.mp (integralMembers_tidy h) e (Entries.mem_ofList he)

theorem integralItems_tidy : ∀ {items : List Json}, IntegralItems items →
    IntegralItems (tidyItems items)
  | [], _ => trivial
  | _ :: _, h => ⟨integral_tidy h.1, integralItems_tidy h.2⟩

theorem integralMembers_tidy : ∀ {members : List (String × Json)}, IntegralMembers members →
    IntegralMembers (tidyMembers members)
  | [], _ => trivial
  | (_, _) :: _, h => ⟨integral_tidy h.1, integralMembers_tidy h.2⟩

end

end Json

end LanguageClient
