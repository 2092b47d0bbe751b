import LanguageClient.Entries
import LanguageClient.Number.Binary64

/-!
# JSON values

A JSON value keeps the members of an object in a list.  Reading produces lists
in strictly increasing order of the keys, which `Json.Ordered` states.
-/

set_option autoImplicit false

namespace LanguageClient

/-- A JSON value; integers and floating-point numbers are told apart. -/
inductive Json where
  | null
  | bool (b : Bool)
  | int (i : Int)
  | float (x : Number.Binary64)
  | str (s : String)
  | arr (items : List Json)
  | obj (members : List (String × Json))
  deriving Inhabited, Repr

namespace Json

/-- The members of an object. -/
abbrev Members := Entries Json

mutual

/-- Whether two values are equal. -/
def beq : Json → Json → Bool
  | .null, .null => true
  | .bool a, .bool b => a == b
  | .int a, .int b => a == b
  | .float a, .float b => a == b
  | .str a, .str b => a == b
  | .arr a, .arr b => beqItems a b
  | .obj a, .obj b => beqMembers a b
  | _, _ => false

/-- Whether two lists of values are equal. -/
def beqItems : List Json → List Json → Bool
  | [], [] => true
  | a :: as, b :: bs => beq a b && beqItems as bs
  | _, _ => false

/-- Whether two lists of members are equal. -/
def beqMembers : List (String × Json) → List (String × Json) → Bool
  | [], [] => true
  | (k, a) :: as, (l, b) :: bs => k == l && (beq a b && beqMembers as bs)
  | _, _ => false

end

instance : BEq Json := ⟨beq⟩

mutual

theorem eq_of_beq : ∀ {a b : Json}, beq a b = true → a = b
  | .null, b, h => by cases b <;> simp_all [beq]
  | .bool _, b, h => by cases b <;> simp_all [beq]
  | .int _, b, h => by cases b <;> simp_all [beq]
  | .float _, b, h => by cases b <;> simp_all [beq]
  | .str _, b, h => by cases b <;> simp_all [beq]
  | .arr as, b, h => by
    cases b with
    | arr bs => exact congrArg Json.arr (eq_of_beqItems (by simpa [beq] using h))
    | _ => simp [beq] at h
  | .obj as, b, h => by
    cases b with
    | obj bs => exact congrArg Json.obj (eq_of_beqMembers (by simpa [beq] using h))
    | _ => simp [beq] at h

theorem eq_of_beqItems : ∀ {as bs : List Json}, beqItems as bs = true → as = bs
  | [], bs, h => by cases bs <;> simp_all [beqItems]
  | a :: as, bs, h => by
    cases bs with
    | nil => simp [beqItems] at h
    | cons b bs =>
      simp only [beqItems, Bool.and_eq_true] at h
      rw [eq_of_beq h.1, eq_of_beqItems h.2]

theorem eq_of_beqMembers : ∀ {as bs : List (String × Json)}, beqMembers as bs = true → as = bs
  | [], bs, h => by cases bs <;> simp_all [beqMembers]
  | (k, a) :: as, bs, h => by
    cases bs with
    | nil => simp [beqMembers] at h
    | cons b bs =>
      obtain ⟨l, b⟩ := b
      simp only [beqMembers, Bool.and_eq_true, beq_iff_eq] at h
      rw [h.1, eq_of_beq h.2.1, eq_of_beqMembers h.2.2]

end

mutual

theorem beq_self : ∀ a : Json, beq a a = true
  | .null | .bool _ | .int _ | .float _ | .str _ => by simp [beq]
  | .arr as => by simpa [beq] using beqItems_self as
  | .obj as => by simpa [beq] using beqMembers_self as

theorem beqItems_self : ∀ as : List Json, beqItems as as = true
  | [] => rfl
  | a :: as => by simp [beqItems, beq_self a, beqItems_self as]

theorem beqMembers_self : ∀ as : List (String × Json), beqMembers as as = true
  | [] => rfl
  | (_, a) :: as => by simp [beqMembers, beq_self a, beqMembers_self as]

end

instance : LawfulBEq Json where
  eq_of_beq := eq_of_beq
  rfl := beq_self _

instance : DecidableEq Json := fun a b =>
  if h : (a == b) = true then isTrue (LawfulBEq.eq_of_beq h)
  else isFalse fun e => h (by subst e; exact beq_self a)

/-- Whether the value is null. -/
def isNull : Json → Bool
  | .null => true
  | _ => false

/-- Whether the value is an object. -/
def isObject : Json → Bool
  | .obj _ => true
  | _ => false

/-- The members of a list in increasing order; of equal keys the last one counts. -/
def ofMembers (members : Members) : Json :=
  .obj (Entries.ofList members)

/-- The member of an object under a key; nothing for any other value. -/
def get? (key : String) : Json → Option Json
  | .obj members => Entries.find? key members
  | _ => none

/-- The string that the value is. -/
def asString? : Json → Option String
  | .str s => some s
  | _ => none

/-- The truth value that the value is. -/
def asBool? : Json → Option Bool
  | .bool b => some b
  | _ => none

/-- The integer that the value is, if it lies between the bounds. -/
def asInt? (low high : Int) : Json → Option Int
  | .int i => if low ≤ i ∧ i ≤ high then some i else none
  | _ => none

/-- The integer of 32 bits that the value is. -/
def int32? : Json → Option Int := asInt? (-0x80000000) 0x7FFFFFFF

/-- The integer of 64 bits that the value is. -/
def int64? : Json → Option Int := asInt? (-0x8000000000000000) 0x7FFFFFFFFFFFFFFF

/-- The whole number below `bound` that the value is. -/
def asNat? (bound : Nat) : Json → Option Nat
  | .int (.ofNat n) => if n < bound then some n else none
  | _ => none

mutual

/-- Whether the members of every object inside the value are in strictly
increasing order of their keys. -/
def Ordered : Json → Prop
  | .arr items => OrderedItems items
  | .obj members => Entries.Increasing members ∧ OrderedMembers members
  | _ => True

/-- Whether every item is ordered. -/
def OrderedItems : List Json → Prop
  | [] => True
  | v :: rest => Ordered v ∧ OrderedItems rest

/-- Whether every member's value is ordered. -/
def OrderedMembers : List (String × Json) → Prop
  | [] => True
  | (_, v) :: rest => Ordered v ∧ OrderedMembers rest

end

mutual

/-- How deeply arrays and objects are nested in the value. -/
def depth : Json → Nat
  | .arr items => depthItems items + 1
  | .obj members => depthMembers members + 1
  | _ => 0

/-- The greatest depth among the items. -/
def depthItems : List Json → Nat
  | [] => 0
  | v :: rest => max (depth v) (depthItems rest)

/-- The greatest depth among the members' values. -/
def depthMembers : List (String × Json) → Nat
  | [] => 0
  | (_, v) :: rest => max (depth v) (depthMembers rest)

end

end Json

end LanguageClient
