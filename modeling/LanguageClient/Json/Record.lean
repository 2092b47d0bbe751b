import LanguageClient.Json.Basic

/-!
# Records in JSON

A record is given as an object, whose unknown members are ignored, or as an array
of its fields in order.  A decoder names each field by its key and its position.
-/

set_option autoImplicit false

namespace LanguageClient.Json

/-- The fields of a record as they are given. -/
inductive Record where
  | named (members : Members)
  | listed (items : List Json)
  deriving Repr

/-- The fields of a record of `size` fields; a longer array is refused. -/
def record? (size : Nat) : Json → Option Record
  | .obj members => some (.named members)
  | .arr items => if items.length ≤ size then some (.listed items) else none
  | _ => none

namespace Record

/-- The value given for a field. -/
def get? (r : Record) (index : Nat) (key : String) : Option Json :=
  match r with
  | .named members => Entries.find? key members
  | .listed items => items[index]?

variable {α : Type}

/-- A field that has to be given. -/
def required (r : Record) (index : Nat) (key : String) (decode : Json → Option α) : Option α :=
  (r.get? index key).bind decode

/-- The value of an optional field that is given: null stands for none. -/
def orNull (decode : Json → Option α) : Json → Option (Option α)
  | .null => some none
  | v => (decode v).map some

/-- An optional field; it may be left out in both forms. -/
def optional (r : Record) (index : Nat) (key : String) (decode : Json → Option α) :
    Option (Option α) :=
  match r.get? index key with
  | none => some none
  | some v => orNull decode v

/-- An optional field that may be left out of an object, but not of an array. -/
def optionalMember (r : Record) (index : Nat) (key : String) (decode : Json → Option α) :
    Option (Option α) :=
  match r, r.get? index key with
  | .named _, none => some none
  | .listed _, none => none
  | _, some v => orNull decode v

end Record

/-- The members whose values are present. -/
def present (members : List (String × Option Json)) : Members :=
  members.filterMap fun (k, v) => v.map (k, ·)

/-- An object of the members whose values are present. -/
def ofPresent (members : List (String × Option Json)) : Json :=
  ofMembers (present members)

end LanguageClient.Json
