import LanguageClient.Toml.Value

/-!
# Tables under construction

A document defines its tables piece by piece: by headers, by dotted keys, and by
headers of arrays of tables.  A draft remembers for each table how it came about,
because that decides what may still be added to it.
-/

set_option autoImplicit false

namespace LanguageClient.Toml

/-- How a table came about. -/
inductive Origin where
  /-- By a header or braces of its own. -/
  | defined
  /-- By the header of a table inside it. -/
  | implied
  /-- By a dotted key. -/
  | dotted
  deriving DecidableEq, Repr

/-- What stands under a key of a draft. -/
inductive Draft where
  /-- A finished value. -/
  | value (v : Value)
  /-- A table that may still grow. -/
  | table (origin : Origin) (members : List (String × Draft))
  /-- An array of tables, of which only the last may grow. -/
  | tables (earlier : List (List (String × Draft))) (last : List (String × Draft))
  deriving Repr

namespace Draft

/-- Changes the table that a path of headers leads to; tables on the way that are
not there yet are implied. -/
def modify (change : Entries Draft → Option (Entries Draft)) (members : Entries Draft) :
    List String → Option (Entries Draft)
  | [] => change members
  | key :: path =>
    match members.find? key with
    | none => (modify change [] path).map fun ms => members.put key (.table .implied ms)
    | some (.value _) => none
    | some (.table origin inner) =>
      (modify change inner path).map fun ms => members.put key (.table origin ms)
    | some (.tables earlier last) =>
      (modify change last path).map fun ms => members.put key (.tables earlier ms)

/-- Opens the table of a header: it must be new or only implied so far. -/
def openTable (key : String) (members : Entries Draft) : Option (Entries Draft) :=
  match members.find? key with
  | none => some (members.put key (.table .defined []))
  | some (.table .implied inner) => some (members.put key (.table .defined inner))
  | _ => none

/-- Opens one more table of an array of tables. -/
def openItem (key : String) (members : Entries Draft) : Option (Entries Draft) :=
  match members.find? key with
  | none => some (members.put key (.tables [] []))
  | some (.tables earlier last) => some (members.put key (.tables (earlier ++ [last]) []))
  | _ => none

/-- Puts a value under a dotted key.  The last table on the way must have come about
by dotted keys, and no table on the way may have been defined by itself. -/
def assign (v : Draft) (members : Entries Draft) : List String → Option (Entries Draft)
  | [] => none
  | [key] => if (members.find? key).isSome then none else some (members.put key v)
  | key :: path =>
    let within (inner : Entries Draft) (wrap : Entries Draft → Draft) : Option (Entries Draft) :=
      (assign v inner path).map fun ms => members.put key (wrap ms)
    match members.find? key with
    | none => within [] (.table .dotted)
    | some (.table .dotted inner) => within inner (.table .dotted)
    | some (.table .implied inner) =>
      if path.length = 1 then none else within inner (.table .implied)
    | some (.tables earlier last) =>
      if path.length = 1 then none else within last (.tables earlier)
    | some _ => none

mutual

/-- The finished value of a draft. -/
def toValue : Draft → Value
  | .value v => v
  | .table _ members => .table (valuesOf members)
  | .tables earlier last => .array (tablesOf earlier ++ [.table (valuesOf last)])

/-- The finished values under keys. -/
def valuesOf : List (String × Draft) → List (String × Value)
  | [] => []
  | (key, d) :: rest => (key, toValue d) :: valuesOf rest

/-- The finished tables of an array. -/
def tablesOf : List (List (String × Draft)) → List Value
  | [] => []
  | members :: rest => .table (valuesOf members) :: tablesOf rest

end

end Draft

end LanguageClient.Toml
