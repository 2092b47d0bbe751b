import LanguageClient.Entries
import LanguageClient.Toml.Datetime

/-!
# TOML values

What a TOML document holds.  A table keeps its values in the order of the keys.
Merging lays one value over another: tables merge key by key, and any other value
takes the place of what is below it.
-/

set_option autoImplicit false

namespace LanguageClient.Toml

/-- A number with a point or an exponent, as it is written. -/
inductive Real where
  | nan
  | infinite (negative : Bool)
  /-- The number `± coefficient · 10 ^ exponent`. -/
  | decimal (negative : Bool) (coefficient : Nat) (exponent : Int)
  deriving DecidableEq, Repr

/-- A value of a document. -/
inductive Value where
  | string (s : String)
  | integer (i : Int)
  | real (x : Real)
  | boolean (b : Bool)
  | datetime (d : Datetime)
  | array (items : List Value)
  | table (members : List (String × Value))
  deriving Inhabited, Repr

namespace Value

/-- The table without any key. -/
def empty : Value := .table []

/-- Whether the value is a table. -/
def isTable : Value → Bool
  | .table _ => true
  | _ => false

/-- The value of a table under a key; nothing for any other value. -/
def get? (key : String) : Value → Option Value
  | .table members => Entries.find? key members
  | _ => none

mutual

/-- Lays a value over another. -/
def merge : Value → Value → Value
  | .table below, .table above => .table (mergeMembers below above)
  | _, above => above

/-- Lays the members of a table over those of another, one after the other. -/
def mergeMembers : Entries Value → List (String × Value) → Entries Value
  | below, [] => below
  | below, (key, value) :: above =>
    let merged := match Entries.find? key below with
      | some v => merge v value
      | none => value
    mergeMembers (Entries.put key merged below) above

end

/-- The text that a value gives where a text is asked for: a moment counts as its
text. -/
def asString? : Value → Option String
  | .string s => some s
  | .datetime d => some (String.ofList d.text)
  | _ => none

/-- The truth value that a value is. -/
def asBool? : Value → Option Bool
  | .boolean b => some b
  | _ => none

/-- The whole number that a value is. -/
def asNat? : Value → Option Nat
  | .integer (.ofNat n) => some n
  | _ => none

/-- The list that a value is, if every item decodes. -/
def list? {α : Type} (decode : Value → Option α) : Value → Option (List α)
  | .array items => items.mapM decode
  | _ => none

end Value

end LanguageClient.Toml
