import LanguageClient.Proofs.Entries
import LanguageClient.Toml.Reader

/-!
# Tables that are read

Every table of a document that is read has its keys in order, however its parts are spread
over headers, dotted keys and braces.  What merging puts under a key of such a table depends
on what both tables have under that key, and on nothing else.
-/

set_option autoImplicit false

namespace LanguageClient.Toml

namespace Value

/-! ## Values in order -/

mutual

/-- Whether the keys of every table in a value increase. -/
def Ordered : Value → Prop
  | .array items => OrderedItems items
  | .table members => Entries.Increasing members ∧ OrderedMembers members
  | _ => True

/-- Whether the keys of every table in a list increase. -/
def OrderedItems : List Value → Prop
  | [] => True
  | v :: rest => Ordered v ∧ OrderedItems rest

/-- Whether the keys of every table under a key increase. -/
def OrderedMembers : List (String × Value) → Prop
  | [] => True
  | (_, v) :: rest => Ordered v ∧ OrderedMembers rest

end

theorem orderedItems_iff {items : List Value} : OrderedItems items ↔ ∀ v ∈ items, Ordered v := by
  induction items with
  | nil => simp [OrderedItems]
  | cons v items ih => simp [OrderedItems, ih]

theorem orderedMembers_iff {members : List (String × Value)} :
    OrderedMembers members ↔ ∀ e ∈ members, Ordered e.2 := by
  induction members with
  | nil => simp [OrderedMembers]
  | cons e members ih => simp [OrderedMembers, ih]

variable {key : String} {below above v : Value} {members : Entries Value}

theorem exists_eq_table (table : v.isTable = true) : ∃ members, v = .table members := by
  cases v with
  | table members => exact ⟨members, rfl⟩
  | _ => cases table

theorem ordered_of_find? (ordered : OrderedMembers members)
    (found : Entries.find? key members = some v) : Ordered v :=
  orderedMembers_iff.mp ordered _ (Entries.mem_of_find? found)

theorem orderedMembers_put (value : Ordered v) (ordered : OrderedMembers members) :
    OrderedMembers (Entries.put key v members) := by
  rw [orderedMembers_iff] at ordered ⊢
  intro e he
  rcases Entries.mem_put he with rfl | before
  · exact value
  · exact ordered e before

/-! ## Merging -/

/-- What lies under a key after merging, from what both tables have there. -/
def laid : Option Value → Option Value → Option Value
  | below, none => below
  | none, some above => some above
  | some below, some above => some (below.merge above)

/-- Merging goes key by key. -/
theorem find?_mergeMembers (key : String) (below : Entries Value) {above : Entries Value}
    (increasing : Entries.Increasing above) :
    Entries.find? key (mergeMembers below above) =
      laid (Entries.find? key below) (Entries.find? key above) := by
  induction above generalizing below with
  | nil => rfl
  | cons e above ih =>
    obtain ⟨k, value⟩ := e
    obtain ⟨greater, rest⟩ := List.pairwise_cons.mp increasing
    rw [mergeMembers, ih _ rest]
    by_cases same : k = key
    · subst same
      -- The key is not among the later ones, so what it got stays.
      have once : Entries.find? k above = none :=
        Entries.find?_eq_none fun held => String.lt_irrefl k (greater k held)
      rw [once, Entries.find?_put_same, Entries.find?, if_pos rfl]
      cases Entries.find? k below <;> rfl
    · rw [Entries.find?_put_ne (Ne.symm same), Entries.find?, if_neg same]

theorem increasing_mergeMembers {below : Entries Value} (increasing : Entries.Increasing below)
    (above : List (String × Value)) : Entries.Increasing (mergeMembers below above) := by
  induction above generalizing below with
  | nil => exact increasing
  | cons e above ih =>
    obtain ⟨k, value⟩ := e
    rw [mergeMembers]
    exact ih (Entries.increasing_put increasing)

/-- A value that is no table takes the place of what is below it, and is replaced by what is
laid over it. -/
theorem merge_of_not_table (plain : below.isTable = false) (above : Value) :
    below.merge above = above := by
  cases below with
  | table => cases plain
  | _ => cases above <;> rfl

mutual

/-- Merging keeps values in order. -/
theorem ordered_merge (below above : Value) (h : below.Ordered) (k : above.Ordered) :
    (below.merge above).Ordered := by
  match below, above with
  | .table below, .table above =>
    rw [merge]
    exact ⟨increasing_mergeMembers h.1 above, orderedMembers_mergeMembers below above h.2 k.2⟩
  | .table _, .string _ | .table _, .integer _ | .table _, .real _ | .table _, .boolean _
  | .table _, .datetime _ | .table _, .array _ => exact k
  | .string _, above | .integer _, above | .real _, above | .boolean _, above
  | .datetime _, above | .array _, above =>
    rw [merge_of_not_table rfl]
    exact k

theorem orderedMembers_mergeMembers (below : Entries Value) (above : List (String × Value))
    (h : OrderedMembers below) (k : OrderedMembers above) :
    OrderedMembers (mergeMembers below above) := by
  match above with
  | [] => exact h
  | (key, value) :: above =>
    rw [mergeMembers]
    apply orderedMembers_mergeMembers _ above _ k.2
    apply orderedMembers_put _ h
    cases found : Entries.find? key below with
    | none => exact k.1
    | some v => exact ordered_merge v value (ordered_of_find? h found) k.1

end

end Value

/-! ## Drafts -/

namespace Draft

mutual

/-- Whether the keys of every table of a draft increase. -/
def Ordered : Draft → Prop
  | .value v => v.Ordered
  | .table _ members => Entries.Increasing members ∧ OrderedMembers members
  | .tables earlier last =>
    OrderedTables earlier ∧ Entries.Increasing last ∧ OrderedMembers last

/-- Whether the keys of every table in drafts under keys increase. -/
def OrderedMembers : List (String × Draft) → Prop
  | [] => True
  | (_, d) :: rest => Ordered d ∧ OrderedMembers rest

/-- Whether the keys of every table of an array increase. -/
def OrderedTables : List (List (String × Draft)) → Prop
  | [] => True
  | members :: rest =>
    (Entries.Increasing members ∧ OrderedMembers members) ∧ OrderedTables rest

end

/-- A table under construction whose keys, and those of all tables in it, increase. -/
def OrderedTable (members : Entries Draft) : Prop :=
  Entries.Increasing members ∧ OrderedMembers members

theorem orderedMembers_iff {members : List (String × Draft)} :
    OrderedMembers members ↔ ∀ e ∈ members, Ordered e.2 := by
  induction members with
  | nil => simp [OrderedMembers]
  | cons e members ih => simp [OrderedMembers, ih]

variable {key : String} {d : Draft} {members inner : Entries Draft} {path : List String}

theorem orderedTable_nil : OrderedTable [] := ⟨List.Pairwise.nil, trivial⟩

theorem OrderedTable.find? (h : OrderedTable members)
    (found : Entries.find? key members = some d) : d.Ordered :=
  orderedMembers_iff.mp h.2 _ (Entries.mem_of_find? found)

theorem OrderedTable.put (h : OrderedTable members) (draft : d.Ordered) :
    OrderedTable (Entries.put key d members) := by
  refine ⟨Entries.increasing_put h.1, orderedMembers_iff.mpr fun e he => ?_⟩
  rcases Entries.mem_put he with rfl | before
  · exact draft
  · exact orderedMembers_iff.mp h.2 e before

theorem orderedTables_append {xs ys : List (List (String × Draft))} :
    OrderedTables (xs ++ ys) ↔ OrderedTables xs ∧ OrderedTables ys := by
  induction xs with
  | nil => simp [OrderedTables]
  | cons x xs ih => simp [OrderedTables, ih, and_assoc]

/-- A change that keeps tables in order does so at the end of every path. -/
theorem OrderedTable.modify {change : Entries Draft → Option (Entries Draft)}
    (keeps : ∀ before after, OrderedTable before → change before = some after →
      OrderedTable after)
    (h : OrderedTable members) (changed : Draft.modify change members path = some inner) :
    OrderedTable inner := by
  induction path generalizing members inner with
  | nil => exact keeps members inner h changed
  | cons key path ih =>
    rw [Draft.modify] at changed
    cases found : Entries.find? key members with
    | none =>
      rw [found] at changed
      obtain ⟨ms, under, rfl⟩ := Option.map_eq_some_iff.mp changed
      exact h.put (ih orderedTable_nil under)
    | some d =>
      have draft : d.Ordered := h.find? found
      rw [found] at changed
      cases d with
      | value v => cases changed
      | table origin within =>
        obtain ⟨ms, under, rfl⟩ := Option.map_eq_some_iff.mp changed
        exact h.put (ih draft under)
      | tables earlier last =>
        obtain ⟨ms, under, rfl⟩ := Option.map_eq_some_iff.mp changed
        have table : OrderedTable ms := ih draft.2 under
        exact h.put ⟨draft.1, table⟩

theorem OrderedTable.openTable (h : OrderedTable members)
    (opened : Draft.openTable key members = some inner) : OrderedTable inner := by
  unfold Draft.openTable at opened
  split at opened
  · obtain rfl := Option.some.inj opened
    exact h.put orderedTable_nil
  · rename_i inner found
    obtain rfl := Option.some.inj opened
    have table : OrderedTable inner := h.find? found
    exact h.put table
  · cases opened

theorem OrderedTable.openItem (h : OrderedTable members)
    (opened : Draft.openItem key members = some inner) : OrderedTable inner := by
  unfold Draft.openItem at opened
  split at opened
  · obtain rfl := Option.some.inj opened
    exact h.put ⟨trivial, orderedTable_nil⟩
  · rename_i found
    obtain rfl := Option.some.inj opened
    have array := h.find? found
    exact h.put ⟨orderedTables_append.mpr ⟨array.1, array.2, trivial⟩, orderedTable_nil⟩
  · cases opened

theorem OrderedTable.assign (h : OrderedTable members) (draft : d.Ordered)
    (assigned : Draft.assign d members path = some inner) : OrderedTable inner := by
  induction path generalizing members inner with
  | nil => cases assigned
  | cons key path ih =>
    -- A table on the way is put back under its key, in the form that it had.
    have within : ∀ (wrap : Entries Draft → Draft) {table : Entries Draft},
        OrderedTable table → (∀ ms, OrderedTable ms → (wrap ms).Ordered) →
        (Draft.assign d table path).map (fun ms => Entries.put key (wrap ms) members) =
          some inner → OrderedTable inner := by
      intro wrap table ordered wraps assigned
      obtain ⟨ms, under, rfl⟩ := Option.map_eq_some_iff.mp assigned
      exact h.put (wraps ms (ih ordered under))
    cases path with
    | nil =>
      rw [Draft.assign] at assigned
      split at assigned
      · cases assigned
      · obtain rfl := Option.some.inj assigned
        exact h.put draft
    | cons next path =>
      rw [Draft.assign] at assigned
      · cases found : Entries.find? key members with
        | none =>
          rw [found] at assigned
          exact within (.table .dotted) orderedTable_nil (fun _ table => table) assigned
        | some there =>
          have ordered : there.Ordered := h.find? found
          rw [found] at assigned
          cases there with
          | value v => cases assigned
          | table origin under =>
            cases origin with
            | defined => cases assigned
            | dotted => exact within (.table .dotted) ordered (fun _ table => table) assigned
            | implied =>
              dsimp only at assigned
              split at assigned
              · cases assigned
              · exact within (.table .implied) ordered (fun _ table => table) assigned
          | tables earlier last =>
            dsimp only at assigned
            split at assigned
            · cases assigned
            · exact within (.tables earlier) ordered.2 (fun _ table => ⟨ordered.1, table⟩) assigned
      · exact nofun

theorem keys_valuesOf (members : List (String × Draft)) :
    Entries.keys (valuesOf members) = Entries.keys members := by
  induction members with
  | nil => rfl
  | cons e members ih =>
    obtain ⟨k, d⟩ := e
    simpa [valuesOf, Entries.keys] using ih

mutual

/-- The finished value of a draft in order is in order. -/
theorem ordered_toValue (d : Draft) (h : d.Ordered) : (toValue d).Ordered := by
  match d with
  | .value v => exact h
  | .table _ members => exact orderedTable_valuesOf members h
  | .tables earlier last =>
    rw [toValue]
    refine Value.orderedItems_iff.mpr fun v hv => ?_
    rcases List.mem_append.mp hv with before | final
    · exact Value.orderedItems_iff.mp (orderedItems_tablesOf earlier h.1) v before
    · obtain rfl := List.mem_singleton.mp final
      exact orderedTable_valuesOf last h.2

theorem orderedTable_valuesOf (members : List (String × Draft)) (h : OrderedTable members) :
    (Value.table (valuesOf members)).Ordered := by
  refine ⟨?_, orderedMembers_valuesOf members h.2⟩
  rw [Entries.Increasing, keys_valuesOf]
  exact h.1

theorem orderedMembers_valuesOf (members : List (String × Draft)) (h : OrderedMembers members) :
    Value.OrderedMembers (valuesOf members) := by
  match members with
  | [] => trivial
  | (_, d) :: members => exact ⟨ordered_toValue d h.1, orderedMembers_valuesOf members h.2⟩

theorem orderedItems_tablesOf (tables : List (List (String × Draft)))
    (h : OrderedTables tables) : Value.OrderedItems (tablesOf tables) := by
  match tables with
  | [] => trivial
  | members :: tables =>
    exact ⟨orderedTable_valuesOf members h.1, orderedItems_tablesOf tables h.2⟩

end

end Draft

/-! ## Readers -/

variable {v : Value} {cs rest : List Char}

theorem ordered_of_integerInRange? {i : Int} (h : integerInRange? i = some v) : v.Ordered := by
  unfold integerInRange? at h
  split at h
  · obtain rfl := Option.some.inj h
    trivial
  · cases h

theorem ordered_of_integer? (h : integer? cs = some (v, rest)) : v.Ordered := by
  unfold integer? at h
  split at h
  · split at h
    · simp only [Option.bind_eq_bind, Option.bind_eq_some_iff, Option.pure_def] at h
      obtain ⟨_, _, n, _, value, inRange, eq⟩ := h
      obtain ⟨rfl, -⟩ := Prod.mk.inj (Option.some.inj eq)
      exact ordered_of_integerInRange? inRange
    · obtain ⟨rfl, -⟩ := Prod.mk.inj (Option.some.inj h)
      trivial
  · simp only [Option.bind_eq_bind, Option.bind_eq_some_iff, Option.pure_def] at h
    obtain ⟨_, _, value, inRange, eq⟩ := h
    obtain ⟨rfl, -⟩ := Prod.mk.inj (Option.some.inj eq)
    exact ordered_of_integerInRange? inRange

theorem ordered_of_decimal? {negative : Bool} {whole fraction : List Char} {exponent : Int}
    (h : decimal? negative whole fraction exponent = some v) : v.Ordered := by
  simp only [decimal?] at h
  split at h
  · cases h
  · obtain rfl := Option.some.inj h
    trivial

theorem ordered_of_real? (h : real? cs = some (v, rest)) : v.Ordered := by
  unfold real? at h
  split at h
  · obtain ⟨rfl, -⟩ := Prod.mk.inj (Option.some.inj h)
    trivial
  · obtain ⟨rfl, -⟩ := Prod.mk.inj (Option.some.inj h)
    trivial
  · simp only [Option.bind_eq_bind, Option.bind_eq_some_iff, Option.pure_def] at h
    obtain ⟨_, _, h⟩ := h
    split at h
    · simp only [Option.bind_eq_some_iff] at h
      obtain ⟨_, _, h⟩ := h
      split at h <;> simp only [Option.bind_eq_some_iff] at h
      · obtain ⟨_, _, value, number, eq⟩ := h
        obtain ⟨rfl, -⟩ := Prod.mk.inj (Option.some.inj eq)
        exact ordered_of_decimal? number
      · obtain ⟨_, _, value, number, eq⟩ := h
        obtain ⟨rfl, -⟩ := Prod.mk.inj (Option.some.inj eq)
        exact ordered_of_decimal? number
      · obtain ⟨value, number, eq⟩ := h
        obtain ⟨rfl, -⟩ := Prod.mk.inj (Option.some.inj eq)
        exact ordered_of_decimal? number
    · simp only [Option.bind_eq_some_iff] at h
      obtain ⟨_, _, value, number, eq⟩ := h
      obtain ⟨rfl, -⟩ := Prod.mk.inj (Option.some.inj eq)
      exact ordered_of_decimal? number

theorem ordered_of_scalar? (h : scalar? cs = some (v, rest)) : v.Ordered := by
  simp only [scalar?, Option.orElse_eq_orElse, Option.orElse_eq_or, Option.or_eq_some_iff,
    Option.map_eq_some_iff] at h
  rcases h with ⟨_, -, eq⟩ | ⟨-, h | ⟨-, ⟨_, -, eq⟩ | ⟨-, h | ⟨-, h⟩⟩⟩⟩
  · obtain ⟨rfl, -⟩ := Prod.mk.inj eq
    trivial
  · unfold boolean? at h
    split at h
    · obtain ⟨rfl, -⟩ := Prod.mk.inj (Option.some.inj h)
      trivial
    · obtain ⟨rfl, -⟩ := Prod.mk.inj (Option.some.inj h)
      trivial
    · cases h
  · obtain ⟨rfl, -⟩ := Prod.mk.inj eq
    trivial
  · exact ordered_of_real? h
  · exact ordered_of_integer? h

section Nested

variable {value? : List Char → Option (Value × List Char)}

theorem ordered_of_items? (reads : ∀ cs v rest, value? cs = some (v, rest) → v.Ordered)
    {fuel : Nat} {items : List Value} (h : items? value? fuel cs = some (items, rest)) :
    Value.OrderedItems items := by
  induction fuel generalizing cs items rest with
  | zero => cases h
  | succ fuel ih =>
    unfold items? at h
    split at h
    · obtain ⟨rfl, -⟩ := Prod.mk.inj (Option.some.inj h)
      trivial
    · simp only [Option.bind_eq_bind, Option.bind_eq_some_iff, Option.pure_def] at h
      obtain ⟨⟨first, _⟩, read, h⟩ := h
      split at h
      · simp only [Option.bind_eq_some_iff] at h
        obtain ⟨⟨others, _⟩, more, eq⟩ := h
        obtain ⟨rfl, -⟩ := Prod.mk.inj (Option.some.inj eq)
        exact ⟨reads _ _ _ read, ih more⟩
      · obtain ⟨rfl, -⟩ := Prod.mk.inj (Option.some.inj h)
        exact ⟨reads _ _ _ read, trivial⟩
      · cases h

theorem ordered_of_keyValue? (reads : ∀ cs v rest, value? cs = some (v, rest) → v.Ordered)
    {key : List String} (h : keyValue? value? cs = some ((key, v), rest)) : v.Ordered := by
  simp only [keyValue?, Option.bind_eq_bind, Option.bind_eq_some_iff, Option.pure_def] at h
  obtain ⟨_, _, _, _, ⟨value, _⟩, read, eq⟩ := h
  obtain ⟨inner, -⟩ := Prod.mk.inj (Option.some.inj eq)
  obtain ⟨-, rfl⟩ := Prod.mk.inj inner
  exact reads _ _ _ read

theorem ordered_of_members? (reads : ∀ cs v rest, value? cs = some (v, rest) → v.Ordered)
    {fuel : Nat} {before after : Entries Draft} (ordered : Draft.OrderedTable before)
    (h : members? value? before fuel cs = some (after, rest)) : Draft.OrderedTable after := by
  induction fuel generalizing cs before rest with
  | zero => cases h
  | succ fuel ih =>
    simp only [members?, Option.bind_eq_bind, Option.bind_eq_some_iff] at h
    obtain ⟨⟨⟨key, value⟩, _⟩, read, members, assigned, h⟩ := h
    have table : Draft.OrderedTable members := by
      apply ordered.assign _ assigned
      exact ordered_of_keyValue? reads read
    split at h
    · exact ih table h
    · obtain ⟨rfl, -⟩ := Prod.mk.inj (Option.some.inj h)
      exact table
    · cases h

theorem ordered_of_inlineTable? (reads : ∀ cs v rest, value? cs = some (v, rest) → v.Ordered)
    (h : inlineTable? value? cs = some (v, rest)) : v.Ordered := by
  unfold inlineTable? at h
  split at h
  · obtain ⟨rfl, -⟩ := Prod.mk.inj (Option.some.inj h)
    exact ⟨List.Pairwise.nil, trivial⟩
  · simp only [Option.map_eq_some_iff] at h
    obtain ⟨⟨members, _⟩, read, eq⟩ := h
    obtain ⟨rfl, -⟩ := Prod.mk.inj eq
    exact Draft.orderedTable_valuesOf members
      (ordered_of_members? reads Draft.orderedTable_nil read)

end Nested

/-- Every value that is read is in order. -/
theorem ordered_of_value? {depth : Nat} (h : value? depth cs = some (v, rest)) : v.Ordered := by
  induction depth generalizing cs v rest with
  | zero => exact ordered_of_scalar? h
  | succ depth ih =>
    have reads : ∀ cs v rest, value? depth cs = some (v, rest) → v.Ordered := fun _ _ _ => ih
    unfold value? at h
    split at h
    · simp only [Option.map_eq_some_iff] at h
      obtain ⟨⟨items, _⟩, read, eq⟩ := h
      obtain ⟨rfl, -⟩ := Prod.mk.inj eq
      exact ordered_of_items? reads read
    · exact ordered_of_inlineTable? reads h
    · exact ordered_of_scalar? h

/-! ## Documents -/

namespace Document

variable {doc next : Document}

theorem ordered_of_header? {change : String → Entries Draft → Option (Entries Draft)}
    {path : List String}
    (keeps : ∀ key before after, Draft.OrderedTable before → change key before = some after →
      Draft.OrderedTable after)
    (ordered : Draft.OrderedTable doc.members) (h : doc.header? change path = some next) :
    Draft.OrderedTable next.members := by
  simp only [header?, Option.bind_eq_bind, Option.bind_eq_some_iff, Option.pure_def] at h
  obtain ⟨key, _, members, changed, eq⟩ := h
  obtain rfl := Option.some.inj eq
  exact ordered.modify (keeps key) changed

theorem ordered_of_assign? {key : List String} (ordered : Draft.OrderedTable doc.members)
    (value : v.Ordered) (h : doc.assign? key v = some next) :
    Draft.OrderedTable next.members := by
  obtain ⟨members, changed, rfl⟩ := Option.map_eq_some_iff.mp h
  apply ordered.modify _ changed
  intro before after table assigned
  have draft : (Draft.value v).Ordered := value
  exact table.assign draft assigned

theorem ordered_of_line? (ordered : Draft.OrderedTable doc.members)
    (h : doc.line? cs = some (next, rest)) : Draft.OrderedTable next.members := by
  unfold line? at h
  have same : ∀ {o : Option (List Char)}, o.map (doc, ·) = some (next, rest) →
      Draft.OrderedTable next.members := by
    intro o h
    obtain ⟨_, -, eq⟩ := Option.map_eq_some_iff.mp h
    obtain ⟨rfl, -⟩ := Prod.mk.inj eq
    exact ordered
  split at h
  · exact same h
  · exact same h
  · exact same h
  · simp only [Option.bind_eq_bind, Option.bind_eq_some_iff, Option.pure_def] at h
    obtain ⟨_, _, _, _, _, _, _, _, opened, header, eq⟩ := h
    obtain ⟨rfl, -⟩ := Prod.mk.inj (Option.some.inj eq)
    exact ordered_of_header? (fun _ _ _ table => table.openItem) ordered header
  · simp only [Option.bind_eq_bind, Option.bind_eq_some_iff, Option.pure_def] at h
    obtain ⟨_, _, _, _, _, _, opened, header, eq⟩ := h
    obtain ⟨rfl, -⟩ := Prod.mk.inj (Option.some.inj eq)
    exact ordered_of_header? (fun _ _ _ table => table.openTable) ordered header
  · simp only [Option.bind_eq_bind, Option.bind_eq_some_iff, Option.pure_def] at h
    obtain ⟨⟨⟨key, value⟩, _⟩, read, _, _, assigned, assignment, eq⟩ := h
    obtain ⟨rfl, -⟩ := Prod.mk.inj (Option.some.inj eq)
    have inOrder : value.Ordered := ordered_of_keyValue? (fun _ _ _ => ordered_of_value?) read
    exact ordered_of_assign? ordered inOrder assignment

theorem ordered_of_lines? {fuel : Nat} (ordered : Draft.OrderedTable doc.members)
    (h : doc.lines? fuel cs = some next) : Draft.OrderedTable next.members := by
  induction fuel generalizing doc cs with
  | zero => cases h
  | succ fuel ih =>
    unfold lines? at h
    split at h
    · obtain rfl := Option.some.inj h
      exact ordered
    · obtain ⟨⟨mid, _⟩, read, more⟩ := Option.bind_eq_some_iff.mp h
      exact ih (ordered_of_line? ordered read) more

end Document

/-- A document that is read is a table, and the keys of all its tables increase. -/
theorem ordered_of_read? (h : read? cs = some v) : v.isTable = true ∧ v.Ordered := by
  obtain ⟨doc, read, rfl⟩ := Option.map_eq_some_iff.mp h
  refine ⟨rfl, Draft.orderedTable_valuesOf doc.members ?_⟩
  exact Document.ordered_of_lines? Draft.orderedTable_nil read

end LanguageClient.Toml
