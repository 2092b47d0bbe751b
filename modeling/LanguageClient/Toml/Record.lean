import LanguageClient.Toml.Value

/-!
# Records in TOML

A record is given as a table, whose unknown keys are ignored, or as an array of its
fields in order.  A decoder names each field by its key and its position.
-/

set_option autoImplicit false

namespace LanguageClient.Toml.Value

/-- The fields of a record as they are given. -/
inductive Record where
  | named (members : Entries Value)
  | listed (items : List Value)
  deriving Repr

/-- The fields of a record of `size` fields; a longer array is refused. -/
def record? (size : Nat) : Value → Option Record
  | .table members => some (.named members)
  | .array items => if items.length ≤ size then some (.listed items) else none
  | _ => none

namespace Record

/-- The value given for a field. -/
def get? (r : Record) (index : Nat) (key : String) : Option Value :=
  match r with
  | .named members => members.find? key
  | .listed items => items[index]?

variable {α : Type}

/-- A field that has to be given. -/
def required (r : Record) (index : Nat) (key : String) (decode : Value → Option α) :
    Option α :=
  (r.get? index key).bind decode

/-- A field that has a default. -/
def withDefault (r : Record) (index : Nat) (key : String) (fallback : α)
    (decode : Value → Option α) : Option α :=
  match r.get? index key with
  | none => some fallback
  | some v => decode v

end Record

end LanguageClient.Toml.Value
