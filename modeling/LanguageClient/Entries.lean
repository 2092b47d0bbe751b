/-!
# Entries

A list of values under keys, in strictly increasing order of the keys.  Looking a
key up, putting a value under it and removing it are the operations; the order is
what makes two lists with the same values under the same keys equal.
-/

set_option autoImplicit false

namespace LanguageClient

/-- Values under keys. -/
abbrev Entries (α : Type) := List (String × α)

namespace Entries

variable {α : Type}

/-- The value under a key. -/
def find? (key : String) : Entries α → Option α
  | [] => none
  | (k, v) :: rest => if k = key then some v else find? key rest

/-- Puts a value under a key, in the place of an earlier one. -/
def put (key : String) (value : α) : Entries α → Entries α
  | [] => [(key, value)]
  | (k, v) :: rest =>
    if key < k then (key, value) :: (k, v) :: rest
    else if k = key then (key, value) :: rest
    else (k, v) :: put key value rest

/-- Removes the value under a key. -/
def remove (key : String) (entries : Entries α) : Entries α :=
  entries.filter (·.1 ≠ key)

/-- Puts values under keys one after the other; of equal keys the last one counts. -/
def ofList (entries : List (String × α)) : Entries α :=
  entries.foldl (fun es e => put e.1 e.2 es) []

/-- The keys, in order. -/
def keys (entries : Entries α) : List String := entries.map Prod.fst

/-- Whether the keys increase strictly. -/
def Increasing (entries : Entries α) : Prop :=
  entries.keys.Pairwise (· < ·)

end Entries

end LanguageClient
