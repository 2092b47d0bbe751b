import LanguageClient.Proofs.Toml.Tables

/-!
# Merging path by path

What lies at a path of keys after one value has been laid over another depends on what both
have at that path, and on whether the upper one has something on the way there that is no table.
`MergedAt` says this for one path without merging anything.  Said of every path it leaves no
choice: a value in order that obeys it is the merged one, because values in order are
determined by what lies at their paths.  A value laid over another a second time changes
nothing, for the first result obeys what is asked of the second.
-/

set_option autoImplicit false

namespace LanguageClient.Toml.Value

variable {v u below above result : Value} {key : String} {path : List String}

/-! ## Values at paths -/

/-- What lies at a path of keys. -/
def at? (v : Value) : List String → Option Value
  | [] => some v
  | key :: path => (v.get? key).bind (·.at? path)

/-- The last key of a path is looked up in what lies at the others. -/
theorem at?_concat (v : Value) (path : List String) (key : String) :
    v.at? (path ++ [key]) = (v.at? path).bind (·.get? key) := by
  induction path generalizing v with
  | nil => exact Option.bind_fun_some _
  | cons first path ih =>
    rw [List.cons_append, at?, at?, Option.bind_assoc]
    exact congrArg _ (funext ih)

theorem at?_cons_of_get? (held : v.get? key = some u) : v.at? (key :: path) = u.at? path := by
  rw [at?, held, Option.bind_some]

theorem get?_of_not_table (plain : v.isTable = false) (key : String) : v.get? key = none := by
  cases v with
  | table => cases plain
  | _ => rfl

theorem ordered_of_get? (ordered : v.Ordered) (held : v.get? key = some u) : u.Ordered := by
  cases v with
  | table members => exact ordered_of_find? ordered.2 held
  | _ => cases held

theorem ordered_at? {found : Value} (ordered : v.Ordered) (there : v.at? path = some found) :
    found.Ordered := by
  induction path generalizing v with
  | nil =>
    obtain rfl := Option.some.inj there
    exact ordered
  | cons key path ih =>
    obtain ⟨u, held, rest⟩ := Option.bind_eq_some_iff.mp there
    exact ih (ordered_of_get? ordered held) rest

/-- Whether something that is no table lies on the way to a path, before its end. -/
def Blocks (v : Value) (path : List String) : Prop :=
  ∃ before key after u, path = before ++ key :: after ∧ v.at? before = some u ∧ u.isTable = false

theorem not_blocks_nil (v : Value) : ¬ v.Blocks [] := by
  rintro ⟨before, key, after, u, split, -⟩
  simp at split

/-- A value is in the way of a longer path, or what it has under the first key is. -/
theorem blocks_cons :
    v.Blocks (key :: path) ↔ v.isTable = false ∨ ∃ u, v.get? key = some u ∧ u.Blocks path := by
  constructor
  · rintro ⟨before, next, after, u, split, there, plain⟩
    cases before with
    | nil =>
      obtain rfl := Option.some.inj there
      exact .inl plain
    | cons first before =>
      obtain ⟨rfl, rest⟩ := List.cons.inj split
      obtain ⟨held, first, there⟩ := Option.bind_eq_some_iff.mp there
      exact .inr ⟨held, first, before, next, after, u, rest, there, plain⟩
  · rintro (plain | ⟨u, held, before, next, after, found, rfl, there, plain⟩)
    · exact ⟨[], key, path, v, rfl, rfl, plain⟩
    · exact ⟨key :: before, next, after, found, rfl, (at?_cons_of_get? held).trans there, plain⟩

/-- Nothing lies beyond what is in the way. -/
theorem at?_of_blocks (blocked : v.Blocks path) : v.at? path = none := by
  induction path generalizing v with
  | nil => exact absurd blocked v.not_blocks_nil
  | cons key path ih =>
    rcases blocks_cons.mp blocked with plain | ⟨u, held, further⟩
    · rw [at?, get?_of_not_table plain, Option.bind_none]
    · rw [at?_cons_of_get? held, ih further]

/-! ## What merging leaves at a path -/

/-- What is laid over a value and is no table takes its place. -/
theorem merge_replaced (plain : above.isTable = false) (v : Value) : v.merge above = above := by
  cases above with
  | table => cases plain
  | _ => cases v <;> rfl

theorem laid_none_left (above : Option Value) : laid none above = above := by
  cases above <;> rfl

theorem laid_none_right (below : Option Value) : laid below none = below := by
  cases below <;> rfl

theorem isSome_laid (below above : Option Value) :
    (laid below above).isSome = (below.isSome || above.isSome) := by
  cases below <;> cases above <;> rfl

/-- Under a key of a table that is laid over a value lies what both have there. -/
theorem get?_merge (ordered : above.Ordered) (table : above.isTable = true) (below : Value)
    (key : String) : (below.merge above).get? key = laid (below.get? key) (above.get? key) := by
  cases lower : below.isTable with
  | false => rw [merge_of_not_table lower, get?_of_not_table lower, laid_none_left]
  | true =>
    obtain ⟨low, rfl⟩ := exists_eq_table lower
    obtain ⟨high, rfl⟩ := exists_eq_table table
    rw [merge]
    exact find?_mergeMembers key low ordered.1

/-- With nothing in the way, a path leads to what both values have there, one laid over the
other. -/
theorem at?_merge (ordered : above.Ordered) (free : ¬ above.Blocks path) (below : Value) :
    (below.merge above).at? path = laid (below.at? path) (above.at? path) := by
  induction path generalizing below above with
  | nil => rfl
  | cons key path ih =>
    rw [blocks_cons, not_or, Bool.not_eq_false] at free
    obtain ⟨table, further⟩ := free
    rw [at?, at?, at?, get?_merge ordered table]
    -- Merging goes on below the key only where both have something under it.
    cases upper : above.get? key with
    | none => rw [laid_none_right, Option.bind_none, laid_none_right]
    | some high =>
      cases below.get? key with
      | none => rw [laid_none_left, Option.bind_none, laid_none_left]
      | some low =>
        exact ih (ordered_of_get? ordered upper) (fun blocked => further ⟨high, upper, blocked⟩) low

/-- What is in the way of a path in the upper value is in the way after merging. -/
theorem blocks_merge (ordered : above.Ordered) (blocked : above.Blocks path) (below : Value) :
    (below.merge above).Blocks path := by
  induction path generalizing below above with
  | nil => exact absurd blocked above.not_blocks_nil
  | cons key path ih =>
    cases table : above.isTable with
    | false => rwa [merge_replaced table]
    | true =>
      rcases blocks_cons.mp blocked with plain | ⟨high, upper, further⟩
      · rw [table] at plain
        cases plain
      · refine blocks_cons.mpr (.inr ?_)
        rw [get?_merge ordered table, upper]
        cases below.get? key with
        | none => exact ⟨high, rfl, further⟩
        | some low =>
          exact ⟨low.merge high, rfl, ih (ordered_of_get? ordered upper) further low⟩

/-! ## Values that agree at every path -/

/-- The value, unless it is a table. -/
def plain? : Value → Option Value
  | .table _ => none
  | v => some v

theorem sizeOf_lt_of_find? {members : Entries Value}
    (found : Entries.find? key members = some v) : sizeOf v < sizeOf (Value.table members) := by
  have entry := List.sizeOf_lt_of_mem (Entries.mem_of_find? found)
  rw [Prod.mk.sizeOf_spec] at entry
  rw [Value.table.sizeOf_spec]
  omega

/-- Values in order are the same if at every path both have nothing, both a table, or both the
same other value. -/
theorem eq_of_at? {v w : Value} (left : v.Ordered) (right : w.Ordered)
    (agree : ∀ path, (v.at? path).map plain? = (w.at? path).map plain?) : v = w := by
  have here : v.plain? = w.plain? := Option.some.inj (agree [])
  cases v with
  | table low =>
    cases w with
    | table high =>
      refine congrArg Value.table (Entries.eq_of_find? left.1 right.1 fun key => ?_)
      have under := agree [key]
      simp only [at?, get?, Option.bind_fun_some] at under
      cases lower : Entries.find? key low with
      | none =>
        rw [lower] at under
        exact (Option.map_eq_none_iff.mp under.symm).symm
      | some u =>
        rw [lower] at under
        obtain ⟨u', upper, -⟩ := Option.map_eq_some_iff.mp under.symm
        -- What a table has under a key is smaller, and agrees at every path that is left.
        have smaller := sizeOf_lt_of_find? lower
        have same : u = u' := by
          refine eq_of_at? (ordered_of_find? left.2 lower) (ordered_of_find? right.2 upper)
            fun path => ?_
          have fromLow : (Value.table low).at? (key :: path) = u.at? path :=
            at?_cons_of_get? lower
          have fromHigh : (Value.table high).at? (key :: path) = u'.at? path :=
            at?_cons_of_get? upper
          rw [← fromLow, ← fromHigh]
          exact agree (key :: path)
        rw [upper, same]
    | _ => cases here
  | _ =>
    cases w with
    | table => cases here
    | _ => exact Option.some.inj here
termination_by sizeOf v

/-! ## The law of merging -/

/-- What one value laid over another makes of a path. -/
structure MergedAt (below above result : Value) (path : List String) : Prop where
  /-- What the upper value has there and is no table is there. -/
  plain : ∀ v, above.at? path = some v → v.isTable = false → result.at? path = some v
  /-- Where the upper value has nothing, and nothing in the way, all is as in the lower one. -/
  kept : above.at? path = none → ¬ above.Blocks path → result.at? path = below.at? path
  /-- Nothing lies beyond what the upper value has in the way. -/
  blocked : above.Blocks path → result.at? path = none
  /-- Two tables become one, with the keys of both. -/
  merged : ∀ low high, below.at? path = some (.table low) → above.at? path = some (.table high) →
    ∃ both, result.at? path = some (.table both) ∧
      ∀ key, key ∈ Entries.keys both ↔ key ∈ Entries.keys low ∨ key ∈ Entries.keys high
  /-- A table takes the place of anything else. -/
  replaced : ∀ high, above.at? path = some (.table high) →
    (∀ u, below.at? path = some u → u.isTable = false) → result.at? path = some (.table high)

/-- Merging obeys the law at every path. -/
theorem mergedAt_merge (ordered : above.Ordered) (below : Value) (path : List String) :
    MergedAt below above (below.merge above) path := by
  have free : ∀ v, above.at? path = some v → ¬ above.Blocks path := by
    intro v there blocked
    rw [at?_of_blocks blocked] at there
    cases there
  constructor
  case plain =>
    intro v there plain
    rw [at?_merge ordered (free v there), there]
    cases below.at? path with
    | none => rfl
    | some u => exact congrArg some (merge_replaced plain u)
  case kept =>
    intro nothing free
    rw [at?_merge ordered free, nothing, laid_none_right]
  case blocked => exact fun blocked => at?_of_blocks (blocks_merge ordered blocked below)
  case merged =>
    intro low high lower upper
    have order : Entries.Increasing high := (ordered_at? ordered upper).1
    refine ⟨mergeMembers low high, ?_, fun key => ?_⟩
    · rw [at?_merge ordered (free _ upper), lower, upper, laid, merge]
    · rw [Entries.mem_keys_iff, find?_mergeMembers key low order, isSome_laid, Bool.or_eq_true,
        ← Entries.mem_keys_iff, ← Entries.mem_keys_iff]
  case replaced =>
    intro high upper plain
    rw [at?_merge ordered (free _ upper), upper]
    cases lower : below.at? path with
    | none => rfl
    | some u => exact congrArg some (merge_of_not_table (plain u lower) _)

/-- A table of the upper value leaves a table that has its keys. -/
theorem MergedAt.table (law : MergedAt below above result path) {high : Entries Value}
    (upper : above.at? path = some (.table high)) :
    ∃ both, result.at? path = some (.table both) ∧
      ∀ key ∈ Entries.keys high, key ∈ Entries.keys both := by
  by_cases plain : ∀ u, below.at? path = some u → u.isTable = false
  · exact ⟨high, law.replaced high upper plain, fun _ held => held⟩
  · simp only [not_forall, Bool.not_eq_false] at plain
    obtain ⟨u, lower, table⟩ := plain
    obtain ⟨low, rfl⟩ := exists_eq_table table
    obtain ⟨both, there, keys⟩ := law.merged low high lower upper
    exact ⟨both, there, fun key held => (keys key).mpr (.inr held)⟩

/-- Two results that obey the law at a path differ there in the members of a table at most. -/
theorem MergedAt.agree {other : Value} (law : MergedAt below above result path)
    (law' : MergedAt below above other path) :
    (result.at? path).map plain? = (other.at? path).map plain? := by
  cases upper : above.at? path with
  | none =>
    by_cases blocked : above.Blocks path
    · rw [law.blocked blocked, law'.blocked blocked]
    · rw [law.kept upper blocked, law'.kept upper blocked]
  | some v =>
    cases table : v.isTable with
    | false => rw [law.plain v upper table, law'.plain v upper table]
    | true =>
      obtain ⟨high, rfl⟩ := exists_eq_table table
      obtain ⟨both, there, -⟩ := law.table upper
      obtain ⟨both', there', -⟩ := law'.table upper
      rw [there, there']
      rfl

/-- What obeys the law is what merging gives. -/
theorem eq_merge_of_mergedAt (lower : below.Ordered) (upper : above.Ordered)
    (ordered : result.Ordered) (law : ∀ path, MergedAt below above result path) :
    result = below.merge above :=
  eq_of_at? ordered (ordered_merge below above lower upper) fun path =>
    (law path).agree (mergedAt_merge upper below path)

/-- What has come from laying a value over another obeys the law over itself. -/
theorem MergedAt.again (law : MergedAt below above result path) :
    MergedAt result above result path where
  plain := law.plain
  kept _ _ := rfl
  blocked := law.blocked
  merged low high there upper := by
    obtain ⟨both, there', keys⟩ := law.table upper
    obtain rfl : low = both := by simpa [there] using there'
    refine ⟨low, there, fun key => ⟨.inl, ?_⟩⟩
    rintro (held | added)
    · exact held
    · exact keys key added
  replaced high upper plain := by
    obtain ⟨both, there, -⟩ := law.table upper
    cases plain _ there

/-- Laying a value over another is a deep merge in which the upper value counts.  Unless both are
tables it is the upper value; at every path, the empty one included, it is what the law of
merging says, and it is the only value in order that is; laying the upper value over it once
more changes nothing, and neither does laying the empty table over a table. -/
theorem merge_path_by_path (lower : below.Ordered) (upper : above.Ordered) :
    (below.isTable = false ∨ above.isTable = false → below.merge above = above) ∧
    (∀ path, MergedAt below above (below.merge above) path) ∧
    (∀ result : Value, result.Ordered → (∀ path, MergedAt below above result path) →
      result = below.merge above) ∧
    (below.merge above).merge above = below.merge above ∧
    (below.isTable = true → below.merge .empty = below) := by
  have ordered : (below.merge above).Ordered := ordered_merge below above lower upper
  have law := mergedAt_merge upper below
  refine ⟨?_, law, fun result => eq_merge_of_mergedAt lower upper, ?_, fun table => ?_⟩
  · rintro (plain | plain)
    · exact merge_of_not_table plain above
    · exact merge_replaced plain below
  · exact (eq_merge_of_mergedAt ordered upper ordered fun path => (law path).again).symm
  · obtain ⟨low, rfl⟩ := exists_eq_table table
    rw [empty, merge, mergeMembers]

/-- A table over a truth value, a truth value over a table, and a list that stays. -/
theorem merge_path_by_path_mixed :
    let below : Value := .table [("log", .table [("level", .string "info")]),
      ("lsp", .table [("args", .array [.string "-v"]), ("enabled", .boolean true)])]
    let above : Value := .table [("log", .boolean false),
      ("lsp", .table [("enabled", .table [("python", .boolean false)])])]
    below.Ordered ∧ above.Ordered ∧
      (below.merge above).at? ["log"] = some (.boolean false) ∧
      (below.merge above).at? ["log", "level"] = none ∧
      (below.merge above).at? ["lsp", "args"] = some (.array [.string "-v"]) ∧
      (below.merge above).at? ["lsp", "enabled"] = some (.table [("python", .boolean false)]) ∧
      (below.merge above).merge above = below.merge above ∧ below.merge .empty = below := by
  intro below above
  have sections : ["log", "lsp"].Pairwise (· < ·) := by decide
  have fields : ["args", "enabled"].Pairwise (· < ·) := by decide
  have single : ∀ key : String, [key].Pairwise (· < ·) := List.pairwise_singleton _
  have lower : below.Ordered :=
    ⟨sections, ⟨single "level", trivial, trivial⟩, ⟨fields, ⟨trivial, trivial⟩, trivial, trivial⟩,
      trivial⟩
  have upper : above.Ordered :=
    ⟨sections, trivial, ⟨single "enabled", ⟨single "python", trivial, trivial⟩, trivial⟩, trivial⟩
  obtain ⟨-, law, -, again, nothing⟩ := merge_path_by_path lower upper
  have inTheWay : above.Blocks ["log", "level"] := ⟨["log"], "level", [], _, rfl, rfl, rfl⟩
  have free : ¬ above.Blocks ["lsp", "args"] := by
    simp [above, blocks_cons, not_blocks_nil, isTable, get?, Entries.find?]
  exact ⟨lower, upper, (law ["log"]).plain _ rfl rfl, (law ["log", "level"]).blocked inTheWay,
    (law ["lsp", "args"]).kept rfl free,
    (law ["lsp", "enabled"]).replaced _ rfl (by rintro u ⟨⟩; rfl), again, nothing rfl⟩

end LanguageClient.Toml.Value
