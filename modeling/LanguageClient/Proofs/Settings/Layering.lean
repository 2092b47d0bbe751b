import LanguageClient.Proofs.Toml.Tables
import LanguageClient.Settings.Layer

/-!
# Layers over layers

Laying a table over settings goes field by field: what the table gives takes the place of
what was there, and what it does not mention stays.  So two layers, one laid over the other
and then both at once over the settings, do what they do one after the other, although the
settings in between have been read and written: nothing is lost, no default is frozen and
none comes back.
-/

set_option autoImplicit false

namespace LanguageClient

open Toml

/-! ## Fields -/

namespace Toml

variable {α : Type} {below : Option α} {given low high : Option Value}
  {decode : Value → Option α} {mid : α}

/-- What a field holds when a value may be given for it. -/
def field (below : Option α) (given : Option Value) (decode : Value → Option α) : Option α :=
  match given with
  | none => below
  | some v => decode v

theorem Value.Record.required_eq_field (r : Value.Record) (index : Nat) (key : String)
    (decode : Value → Option α) :
    r.required index key decode = field none (r.get? index key) decode := by
  unfold required field
  cases r.get? index key <;> rfl

theorem Value.Record.withDefault_eq_field (r : Value.Record) (index : Nat) (key : String)
    (fallback : α) (decode : Value → Option α) :
    r.withDefault index key fallback decode = field (some fallback) (r.get? index key) decode := by
  unfold withDefault field
  cases r.get? index key <;> rfl

/-- A field that was there holds what was there, or what is laid over it. -/
theorem field_laid (below : Option α) (base : Value) (given : Option Value)
    (decode : Value → Option α) :
    field below (Value.laid (some base) given) decode =
      field (decode base) given fun v => decode (base.merge v) := by
  cases given <;> rfl

/-- A field that was there and is no table holds what was there, or what is given. -/
theorem field_laid_plain (below : Option α) {base : Value} (plain : base.isTable = false)
    (given : Option Value) (decode : Value → Option α) :
    field below (Value.laid (some base) given) decode = field (decode base) given decode := by
  rw [field_laid]
  cases given with
  | none => rfl
  | some v => rw [field, field, Value.merge_of_not_table plain]

/-- A decoder that refuses tables has been given none. -/
theorem plain_of_field (refuses : ∀ members, decode (.table members) = none)
    (first : field below low decode = some mid) :
    ∀ u, low = some u → u.isTable = false := by
  rintro u rfl
  cases u with
  | table members =>
    rw [field, refuses members] at first
    cases first
  | _ => rfl

/-- Two layers of a field that is no table. -/
theorem field_field (plain : ∀ u, low = some u → u.isTable = false)
    (first : field below low decode = some mid) :
    field (some mid) high decode = field below (Value.laid low high) decode := by
  cases high with
  | none => exact first.symm
  | some v =>
    cases low with
    | none => rfl
    | some u =>
      have replaced : u.merge v = v := Value.merge_of_not_table (plain u rfl) v
      rw [field, Value.laid, field, replaced]

/-- Two layers of a field whose layers are laid over each other themselves. -/
theorem field_layers {base mid : α} {layer : α → Value → Option α}
    (layers : ∀ u v m, low = some u → high = some v → layer base u = some m →
      layer m v = layer base (u.merge v))
    (first : field (some base) low (layer base) = some mid) :
    field (some mid) high (layer mid) = field (some base) (Value.laid low high) (layer base) := by
  cases low with
  | none =>
    obtain rfl : base = mid := Option.some.inj first
    cases high <;> rfl
  | some u =>
    cases high with
    | none => exact first.symm
    | some v => exact layers u v mid rfl rfl first

/-! ## Values in order -/

theorem Value.ordered_ofList {members : List (String × Value)}
    (ordered : ∀ e ∈ members, e.2.Ordered) : (Value.table (Entries.ofList members)).Ordered :=
  ⟨Entries.increasing_ofList members,
    Value.orderedMembers_iff.mpr fun e he => ordered e (Entries.mem_ofList he)⟩

theorem Value.Record.ordered_of_get? {v u : Value} {r : Value.Record} {size index : Nat}
    {key : String} (ordered : v.Ordered) (read : v.record? size = some r)
    (given : r.get? index key = some u) : u.Ordered := by
  unfold Value.record? at read
  split at read
  · obtain rfl := Option.some.inj read
    exact Value.ordered_of_find? ordered.2 given
  · split at read
    · obtain rfl := Option.some.inj read
      exact Value.orderedItems_iff.mp ordered u (List.mem_of_getElem? given)
    · cases read
  · cases read

end Toml

/-! ## Servers -/

/-- A list of texts is read as it was written. -/
theorem list?_textsToToml (texts : List String) :
    Value.list? Value.asString? (textsToToml texts) = some texts := by
  rw [textsToToml, Value.list?]
  induction texts with
  | nil => rfl
  | cons text texts ih =>
    rw [List.map_cons, List.mapM_cons, ih]
    rfl

theorem ordered_textsToToml (texts : List String) : (textsToToml texts).Ordered := by
  refine Value.orderedItems_iff.mpr fun v hv => ?_
  obtain ⟨text, -, rfl⟩ := List.mem_map.mp hv
  trivial

namespace ServerEntry

variable {below : Option ServerEntry} {mid : ServerEntry} {low high : Entries Value}

/-- Lays a table over a server, if there is one already. -/
def layer? : Option ServerEntry → Value → Option ServerEntry
  | none, above => ofToml? above
  | some below, above => ofToml? (below.toToml.merge above)

/-- A layer over a server, field by field. -/
theorem layer?_table (below : Option ServerEntry) {above : Entries Value}
    (increasing : Entries.Increasing above) :
    layer? below (.table above) = do
      let command ← field (below.map (·.command)) (above.find? "command") Value.asString?
      let args ← field (some (below.elim [] (·.args))) (above.find? "args")
        (Value.list? Value.asString?)
      let extensions ← field (some (below.elim [] (·.extensions))) (above.find? "extensions")
        (Value.list? Value.asString?)
      return { command, args, extensions } := by
  cases below with
  | none =>
    simp only [layer?, ofToml?, Value.record?, Value.Record.required_eq_field,
      Value.Record.withDefault_eq_field, Value.Record.get?]
    rfl
  | some e =>
    have there : ∀ key, Entries.find? key (Entries.ofList [("command", Value.string e.command),
        ("args", textsToToml e.args), ("extensions", textsToToml e.extensions)]) =
          if "extensions" = key then some (textsToToml e.extensions)
          else if "args" = key then some (textsToToml e.args)
          else if "command" = key then some (.string e.command) else none := by
      intro key
      rw [Entries.find?_ofList]
      rfl
    have listed : ∀ texts, (textsToToml texts).isTable = false := fun _ => rfl
    have text : (Value.string e.command).isTable = false := rfl
    simp only [layer?, toToml, Value.merge, ofToml?, Value.record?,
      Value.Record.required_eq_field, Value.Record.withDefault_eq_field, Value.Record.get?,
      Value.find?_mergeMembers _ _ increasing, there, Option.bind_eq_bind, Option.bind_some,
      String.reduceEq, if_true, if_false, field_laid_plain _ (listed _), field_laid_plain _ text,
      list?_textsToToml, Value.asString?, Option.map_some, Option.elim_some]

/-- A server is read as it was written. -/
theorem ofToml?_toToml (e : ServerEntry) : ofToml? e.toToml = some e := by
  have nothing : Entries.Increasing ([] : Entries Value) := List.Pairwise.nil
  exact layer?_table (some e) nothing

/-- Two layers of a server. -/
theorem layer?_layer? (lowOrder : low.Increasing) (highOrder : high.Increasing)
    (first : layer? below (.table low) = some mid) :
    layer? (some mid) (.table high) = layer? below ((Value.table low).merge (.table high)) := by
  have bothOrder : Entries.Increasing (Value.mergeMembers low high) :=
    Value.increasing_mergeMembers lowOrder high
  rw [layer?_table below lowOrder] at first
  simp only [Option.bind_eq_bind, Option.bind_eq_some_iff, Option.pure_def] at first
  obtain ⟨command, commandRead, args, argsRead, extensions, extensionsRead, eq⟩ := first
  obtain rfl := Option.some.inj eq
  have commandPlain := plain_of_field (fun _ => rfl) commandRead
  have argsPlain := plain_of_field (fun _ => rfl) argsRead
  have extensionsPlain := plain_of_field (fun _ => rfl) extensionsRead
  rw [Value.merge, layer?_table below bothOrder, layer?_table (some _) highOrder]
  simp only [Value.find?_mergeMembers _ _ highOrder, Option.map_some, Option.elim_some,
    field_field commandPlain commandRead, field_field argsPlain argsRead,
    field_field extensionsPlain extensionsRead]

theorem ordered_toToml (e : ServerEntry) : e.toToml.Ordered := by
  apply Value.ordered_ofList
  simp only [List.forall_mem_cons, List.not_mem_nil, false_imp_iff, implies_true, and_true]
  exact ⟨trivial, ordered_textsToToml e.args, ordered_textsToToml e.extensions⟩

end ServerEntry

/-! ## Sections -/

namespace LogLevel

/-- A level is read as it was written. -/
theorem ofToml?_name (level : LogLevel) : ofToml? (.string level.name) = some level := by
  cases level <;> decide

end LogLevel

namespace LogSettings

/-- Lays a table over log settings. -/
def layer? (below : LogSettings) (above : Value) : Option LogSettings :=
  ofToml? (below.toToml.merge above)

theorem layer?_table (below : LogSettings) {above : Entries Value}
    (increasing : Entries.Increasing above) :
    layer? below (.table above) = do
      let level ← field (some below.level) (above.find? "level") LogLevel.ofToml?
      let file ← field (some below.file) (above.find? "file") (fun v => v.asString?.map some)
      return { level, file } := by
  have there : ∀ key, Entries.find? key (Entries.ofList (("level", Value.string below.level.name) ::
      below.file.elim [] fun f => [("file", .string f)])) =
        if "file" = key then below.file.map .string
        else if "level" = key then some (.string below.level.name) else none := by
    intro key
    rw [Entries.find?_ofList]
    cases below.file with
    | none =>
      by_cases named : "file" = key
      · subst named
        rfl
      · rw [if_neg named]
        rfl
    | some f => rfl
  have name : (Value.string below.level.name).isTable = false := rfl
  have file : ∀ given, field (some none) (Value.laid (below.file.map .string) given)
      (fun v => v.asString?.map some) = field (some below.file) given
        (fun v => v.asString?.map some) := by
    intro given
    cases below.file with
    | none => cases given <;> rfl
    | some f => exact field_laid_plain _ rfl given _
  simp only [layer?, toToml, Value.merge, ofToml?, Value.record?,
    Value.Record.withDefault_eq_field, Value.Record.get?,
    Value.find?_mergeMembers _ _ increasing, there, Option.bind_eq_bind, Option.bind_some,
    String.reduceEq, if_true, if_false, field_laid_plain _ name, LogLevel.ofToml?_name, file]

/-- Log settings are read as they were written. -/
theorem ofToml?_toToml (s : LogSettings) : ofToml? s.toToml = some s := by
  have nothing : Entries.Increasing ([] : Entries Value) := List.Pairwise.nil
  exact layer?_table s nothing

/-- Two layers of log settings, the lower of which gives no level but a text. -/
theorem layer?_layer? {below mid : LogSettings} {low high : Entries Value}
    (lowOrder : low.Increasing) (highOrder : high.Increasing)
    (level : ∀ u, low.find? "level" = some u → u.isTable = false)
    (first : layer? below (.table low) = some mid) :
    layer? mid (.table high) = layer? below ((Value.table low).merge (.table high)) := by
  have bothOrder : Entries.Increasing (Value.mergeMembers low high) :=
    Value.increasing_mergeMembers lowOrder high
  rw [layer?_table below lowOrder] at first
  simp only [Option.bind_eq_bind, Option.bind_eq_some_iff, Option.pure_def] at first
  obtain ⟨name, nameRead, file, fileRead, eq⟩ := first
  obtain rfl := Option.some.inj eq
  have filePlain := plain_of_field (fun _ => rfl) fileRead
  rw [Value.merge, layer?_table below bothOrder, layer?_table _ highOrder]
  simp only [Value.find?_mergeMembers _ _ highOrder, field_field level nameRead,
    field_field filePlain fileRead]

theorem ordered_toToml (s : LogSettings) : s.toToml.Ordered := by
  apply Value.ordered_ofList
  intro e he
  rcases List.mem_cons.mp he with rfl | later
  · trivial
  · cases file : s.file with
    | none => simp [file] at later
    | some f =>
      obtain rfl : e = ("file", .string f) := by simpa [file] using later
      trivial

end LogSettings

namespace LspSettings

/-- Servers as a table. -/
def serversToToml (servers : Entries ServerEntry) : Value :=
  .table (servers.map fun (language, e) => (language, e.toToml))

/-- Lays a table over servers. -/
def layerServers? (below : Entries ServerEntry) (above : Value) : Option (Entries ServerEntry) :=
  serversOfToml? ((serversToToml below).merge above)

/-- Lays a table over the settings of servers. -/
def layer? (below : LspSettings) (above : Value) : Option LspSettings :=
  ofToml? (below.toToml.merge above)

/-- Lays a table over what is held under a language. -/
def layerHeld? (below : Option ServerEntry) (above : Value) : Option (Option ServerEntry) :=
  (ServerEntry.layer? below above).map some

/-- A layer over servers, server by server. -/
theorem layerServers?_eq_some_iff {below servers : Entries ServerEntry} {above : Entries Value}
    (belowOrder : below.Increasing) (aboveOrder : above.Increasing) :
    layerServers? below (.table above) = some servers ↔
      servers.Increasing ∧ ∀ language,
        field (some (below.find? language)) (above.find? language)
          (layerHeld? (below.find? language)) = some (servers.find? language) := by
  have order : Entries.Increasing (Value.mergeMembers (below.map fun (language, e) =>
      (language, e.toToml)) above) :=
    Value.increasing_mergeMembers (Entries.increasing_map _ belowOrder) above
  rw [layerServers?, serversToToml, Value.merge, serversOfToml?, Entries.mapM_eq_some_iff order]
  refine and_congr_right fun _ => forall_congr' fun language => ?_
  have decoded : ∀ read there : Option ServerEntry,
      (∃ e, read = some e ∧ there = some e) ↔ read.map some = some there := by
    intro read there
    cases read <;> simp [eq_comm]
  rw [Value.find?_mergeMembers _ _ aboveOrder, Entries.find?_map]
  cases below.find? language with
  | none =>
    cases above.find? language with
    | none => simp [Value.laid, field, eq_comm]
    | some v => exact decoded _ _
  | some e =>
    cases above.find? language with
    | none => simp [Value.laid, field, ServerEntry.ofToml?_toToml, eq_comm]
    | some v => exact decoded _ _

/-- Servers are read as they were written. -/
theorem serversOfToml?_serversToToml {servers : Entries ServerEntry} (order : servers.Increasing) :
    serversOfToml? (serversToToml servers) = some servers := by
  have nothing : Entries.Increasing ([] : Entries Value) := List.Pairwise.nil
  exact (layerServers?_eq_some_iff order nothing).mpr ⟨order, fun _ => rfl⟩

/-- Two layers of servers, each of which is given as a table. -/
theorem layerServers?_layerServers? {below mid : Entries ServerEntry} {low high : Entries Value}
    (order : below.Increasing) (lowOrder : (Value.table low).Ordered)
    (highOrder : (Value.table high).Ordered)
    (lowTables : ∀ language v, low.find? language = some v → v.isTable = true)
    (highTables : ∀ language v, high.find? language = some v → v.isTable = true)
    (first : layerServers? below (.table low) = some mid) :
    layerServers? mid (.table high) = layerServers? below ((Value.table low).merge (.table high)) := by
  obtain ⟨midOrder, at_⟩ := (layerServers?_eq_some_iff order lowOrder.1).mp first
  have bothOrder : Entries.Increasing (Value.mergeMembers low high) :=
    Value.increasing_mergeMembers lowOrder.1 high
  -- One server goes through both layers like a field whose layers are merged.
  have each : ∀ language, field (some (mid.find? language)) (high.find? language)
      (layerHeld? (mid.find? language)) =
        field (some (below.find? language)) (Value.laid (low.find? language) (high.find? language))
          (layerHeld? (below.find? language)) := by
    intro language
    apply field_layers _ (at_ language)
    intro u v m given upper laid
    obtain ⟨e, read, rfl⟩ := Option.map_eq_some_iff.mp laid
    have uOrder : u.Ordered := Value.ordered_of_find? lowOrder.2 given
    have vOrder : v.Ordered := Value.ordered_of_find? highOrder.2 upper
    have uTable := lowTables language u given
    have vTable := highTables language v upper
    obtain ⟨u, rfl⟩ := Value.exists_eq_table uTable
    obtain ⟨v, rfl⟩ := Value.exists_eq_table vTable
    rw [layerHeld?, layerHeld?, ServerEntry.layer?_layer? uOrder.1 vOrder.1 read]
  ext servers
  rw [Value.merge, layerServers?_eq_some_iff midOrder highOrder.1,
    layerServers?_eq_some_iff order bothOrder]
  simp only [each, Value.find?_mergeMembers _ _ highOrder.1]

/-- A layer over the settings of servers, field by field. -/
theorem layer?_table (below : LspSettings) (order : below.servers.Increasing)
    {above : Entries Value} (increasing : above.Increasing) :
    layer? below (.table above) = do
      let enabled ← field (some below.enabled) (above.find? "enabled") Value.asBool?
      let requestTimeout ← field (some below.requestTimeout)
        (above.find? "request_timeout_secs") Value.asNat?
      let shutdownTimeout ← field (some below.shutdownTimeout)
        (above.find? "shutdown_timeout_secs") Value.asNat?
      let servers ← field (some below.servers) (above.find? "servers") (layerServers? below.servers)
      return { enabled, requestTimeout, shutdownTimeout, servers } := by
  have there : ∀ key, Entries.find? key (Entries.ofList [("enabled", .boolean below.enabled),
      ("request_timeout_secs", .integer (Int.ofNat below.requestTimeout)),
      ("shutdown_timeout_secs", .integer (Int.ofNat below.shutdownTimeout)),
      ("servers", .table (below.servers.map fun (language, e) => (language, e.toToml)))]) =
        if "servers" = key then some (serversToToml below.servers)
        else if "shutdown_timeout_secs" = key then
          some (.integer (Int.ofNat below.shutdownTimeout))
        else if "request_timeout_secs" = key then some (.integer (Int.ofNat below.requestTimeout))
        else if "enabled" = key then some (.boolean below.enabled) else none := by
    intro key
    rw [Entries.find?_ofList]
    rfl
  have bool : (Value.boolean below.enabled).isTable = false := rfl
  have integer : ∀ i, (Value.integer i).isTable = false := fun _ => rfl
  have written : ∀ n, (Value.integer (Int.ofNat n)).asNat? = some n := fun _ => rfl
  have servers : ∀ given, field (some defaultServers)
      (Value.laid (some (serversToToml below.servers)) given) serversOfToml? =
        field (some below.servers) given (layerServers? below.servers) := by
    intro given
    rw [field_laid, serversOfToml?_serversToToml order]
    rfl
  simp only [layer?, toToml, Value.merge, ofToml?, Value.record?, Option.bind_eq_bind,
    Option.bind_some]
  simp only [Value.Record.withDefault_eq_field, Value.Record.get?,
    Value.find?_mergeMembers _ _ increasing, there, String.reduceEq, if_true, if_false]
  rw [field_laid_plain _ bool, field_laid_plain _ (integer _), field_laid_plain _ (integer _),
    written, written, servers]
  rfl

/-- The settings of servers are read as they were written. -/
theorem ofToml?_toToml {s : LspSettings} (order : s.servers.Increasing) :
    ofToml? s.toToml = some s := by
  have nothing : Entries.Increasing ([] : Entries Value) := List.Pairwise.nil
  exact layer?_table s order nothing

theorem ordered_toToml {s : LspSettings} (order : s.servers.Increasing) :
    s.toToml.Ordered := by
  have servers : (serversToToml s.servers).Ordered := by
    refine ⟨Entries.increasing_map _ order, Value.orderedMembers_iff.mpr fun e he => ?_⟩
    obtain ⟨⟨language, entry⟩, -, rfl⟩ := List.mem_map.mp he
    exact entry.ordered_toToml
  apply Value.ordered_ofList
  simp only [List.forall_mem_cons, List.not_mem_nil, false_imp_iff, implies_true, and_true]
  exact ⟨trivial, trivial, trivial, servers⟩

theorem increasing_default : Entries.Increasing defaultServers := by
  have order : ("python" : String) < "rust" := by decide
  apply List.pairwise_cons.mpr
  refine ⟨fun key held => ?_, List.pairwise_singleton _ _⟩
  rw [List.mem_singleton.mp held]
  exact order

/-- The servers that a value in order describes are in order. -/
theorem increasing_of_ofToml? {v : Value} {s : LspSettings} (ordered : v.Ordered)
    (h : ofToml? v = some s) : s.servers.Increasing := by
  simp only [ofToml?, Value.Record.withDefault_eq_field, Option.bind_eq_bind,
    Option.bind_eq_some_iff, Option.pure_def] at h
  obtain ⟨r, read, _, _, _, _, _, _, servers, serversRead, eq⟩ := h
  obtain rfl := Option.some.inj eq
  cases given : r.get? 3 "servers" with
  | none =>
    rw [given] at serversRead
    obtain rfl := Option.some.inj serversRead
    exact increasing_default
  | some u =>
    rw [given] at serversRead
    have inOrder : u.Ordered := Value.Record.ordered_of_get? ordered read given
    cases u with
    | table members =>
      have same : servers.keys = Entries.keys members := Entries.keys_of_mapM serversRead
      rw [Entries.Increasing, same]
      exact inOrder.1
    | _ => cases serversRead

/-- Whether the servers of a layer, and each of them, are given as tables. -/
def GivesTables (layer : Entries Value) : Prop :=
  ∀ servers, layer.find? "servers" = some servers → servers.isTable = true ∧
    ∀ language v, servers.get? language = some v → v.isTable = true

/-- Two layers of the settings of servers. -/
theorem layer?_layer? {below mid : LspSettings} {low high : Entries Value}
    (order : below.servers.Increasing) (lowOrder : (Value.table low).Ordered)
    (highOrder : (Value.table high).Ordered) (lowTables : GivesTables low)
    (highTables : GivesTables high) (first : layer? below (.table low) = some mid) :
    layer? mid (.table high) = layer? below ((Value.table low).merge (.table high)) := by
  have bothOrder : Entries.Increasing (Value.mergeMembers low high) :=
    Value.increasing_mergeMembers lowOrder.1 high
  have midOrder : mid.servers.Increasing :=
    increasing_of_ofToml? (Value.ordered_merge _ _ (ordered_toToml order) lowOrder) first
  rw [layer?_table below order lowOrder.1] at first
  simp only [Option.bind_eq_bind, Option.bind_eq_some_iff, Option.pure_def] at first
  obtain ⟨enabled, enabledRead, request, requestRead, shutdown, shutdownRead, servers,
    serversRead, eq⟩ := first
  obtain rfl := Option.some.inj eq
  have enabledPlain := plain_of_field (fun _ => rfl) enabledRead
  have requestPlain := plain_of_field (fun _ => rfl) requestRead
  have shutdownPlain := plain_of_field (fun _ => rfl) shutdownRead
  have serversEq : field (some servers) (high.find? "servers") (layerServers? servers) =
      field (some below.servers) (Value.laid (low.find? "servers") (high.find? "servers"))
        (layerServers? below.servers) := by
    apply field_layers _ serversRead
    intro u v mid given upper read
    obtain ⟨uTable, uTables⟩ := lowTables u given
    obtain ⟨vTable, vTables⟩ := highTables v upper
    have uOrder : u.Ordered := Value.ordered_of_find? lowOrder.2 given
    have vOrder : v.Ordered := Value.ordered_of_find? highOrder.2 upper
    obtain ⟨u, rfl⟩ := Value.exists_eq_table uTable
    obtain ⟨v, rfl⟩ := Value.exists_eq_table vTable
    exact layerServers?_layerServers? order uOrder vOrder uTables vTables read
  rw [Value.merge, layer?_table below order bothOrder, layer?_table _ midOrder highOrder.1]
  simp only [Value.find?_mergeMembers _ _ highOrder.1, field_field enabledPlain enabledRead,
    field_field requestPlain requestRead, field_field shutdownPlain shutdownRead, serversEq]

end LspSettings

/-! ## All settings -/

namespace Settings

theorem layer?_table (below : Settings) (order : below.lsp.servers.Increasing)
    {above : Entries Value} (increasing : above.Increasing) :
    layer? below (.table above) = do
      let log ← field (some below.log) (above.find? "log") (LogSettings.layer? below.log)
      let lsp ← field (some below.lsp) (above.find? "lsp") (LspSettings.layer? below.lsp)
      return { log, lsp } := by
  have there : ∀ key, Entries.find? key (Entries.ofList [("log", below.log.toToml),
      ("lsp", below.lsp.toToml)]) =
        if "lsp" = key then some below.lsp.toToml
        else if "log" = key then some below.log.toToml else none := by
    intro key
    rw [Entries.find?_ofList]
    rfl
  simp only [layer?, toToml, Value.merge, ofToml?, Value.record?, Option.bind_eq_bind,
    Option.bind_some]
  simp only [Value.Record.withDefault_eq_field, Value.Record.get?,
    Value.find?_mergeMembers _ _ increasing, there, String.reduceEq, if_true, if_false]
  rw [field_laid, field_laid, LogSettings.ofToml?_toToml, LspSettings.ofToml?_toToml order]
  rfl

/-- The empty table sets nothing. -/
theorem layer?_empty (below : Settings) (order : below.lsp.servers.Increasing) :
    layer? below .empty = some below := by
  have nothing : Entries.Increasing ([] : Entries Value) := List.Pairwise.nil
  exact layer?_table below order nothing

/-! ## The order of servers -/

/-- The servers of settings that a value in order describes are in order. -/
theorem increasing_of_ofToml? {v : Value} {s : Settings} (ordered : v.Ordered)
    (h : ofToml? v = some s) : s.lsp.servers.Increasing := by
  simp only [ofToml?, Value.Record.withDefault_eq_field, Option.bind_eq_bind,
    Option.bind_eq_some_iff, Option.pure_def] at h
  obtain ⟨r, read, _, _, lsp, lspRead, eq⟩ := h
  obtain rfl := Option.some.inj eq
  cases given : r.get? 1 "lsp" with
  | none =>
    rw [given] at lspRead
    obtain rfl := Option.some.inj lspRead
    exact LspSettings.increasing_default
  | some u =>
    rw [given] at lspRead
    have inOrder : u.Ordered := Value.Record.ordered_of_get? ordered read given
    exact LspSettings.increasing_of_ofToml? inOrder lspRead

theorem ordered_toToml {s : Settings} (order : s.lsp.servers.Increasing) : s.toToml.Ordered := by
  apply Value.ordered_ofList
  simp only [List.forall_mem_cons, List.not_mem_nil, false_imp_iff, implies_true, and_true]
  exact ⟨s.log.ordered_toToml, LspSettings.ordered_toToml order⟩

/-- A layer keeps servers in order. -/
theorem increasing_of_merge {base s : Settings} {text : String}
    (order : base.lsp.servers.Increasing) (h : base.merge text = .ok s) :
    s.lsp.servers.Increasing := by
  unfold merge at h
  split at h
  · rename_i read
    obtain rfl := Except.ok.inj h
    obtain ⟨v, value, layered⟩ := Option.bind_eq_some_iff.mp read
    have above : v.Ordered := (Toml.ordered_of_read? value).2
    exact increasing_of_ofToml? (Value.ordered_merge _ v (ordered_toToml order) above) layered
  · cases h

/-- Settings that come from the defaults by layers. -/
def Reached (s : Settings) : Prop := ∃ texts : List String, texts.foldlM merge .default = .ok s

theorem Reached.increasing {s : Settings} (reached : s.Reached) : s.lsp.servers.Increasing := by
  obtain ⟨texts, layered⟩ := reached
  have start : Settings.default.lsp.servers.Increasing := LspSettings.increasing_default
  generalize Settings.default = base at layered start
  induction texts generalizing base with
  | nil =>
    obtain rfl := Except.ok.inj layered
    exact start
  | cons text texts ih =>
    rw [List.foldlM_cons] at layered
    cases first : base.merge text with
    | error e =>
      rw [first] at layered
      cases layered
    | ok mid =>
      rw [first] at layered
      exact ih mid layered (increasing_of_merge start first)

/-! ## Two layers -/

/-- Whether a layer gives its sections and its servers as tables, and the level as a text. -/
def isSectioned (layer : Value) : Bool :=
  (layer.get? "log").all (fun log => log.isTable && (log.get? "level").all isText) &&
    (layer.get? "lsp").all (fun lsp => lsp.isTable && (lsp.get? "servers").all areTables)
where
  /-- Whether a value is a text. -/
  isText : Value → Bool
    | .string _ => true
    | _ => false
  /-- Whether a value is a table of tables. -/
  areTables : Value → Bool
    | .table members => members.all (·.2.isTable)
    | _ => false

variable {layer : Entries Value} {v : Value}

theorem log_of_isSectioned (sectioned : isSectioned (.table layer) = true)
    (given : layer.find? "log" = some v) :
    ∃ log, v = .table log ∧ ∀ u, Entries.find? "level" log = some u → u.isTable = false := by
  simp only [isSectioned, Value.get?, given, Option.all_some, Bool.and_eq_true] at sectioned
  obtain ⟨⟨table, level⟩, -⟩ := sectioned
  obtain ⟨log, rfl⟩ := Value.exists_eq_table table
  refine ⟨log, rfl, fun u found => ?_⟩
  change (Entries.find? "level" log).all isSectioned.isText = true at level
  rw [found] at level
  cases u with
  | string s => rfl
  | _ => cases level

theorem lsp_of_isSectioned (sectioned : isSectioned (.table layer) = true)
    (given : layer.find? "lsp" = some v) :
    ∃ lsp, v = .table lsp ∧ LspSettings.GivesTables lsp := by
  simp only [isSectioned, Value.get?, given, Option.all_some, Bool.and_eq_true] at sectioned
  obtain ⟨-, table, servers⟩ := sectioned
  obtain ⟨lsp, rfl⟩ := Value.exists_eq_table table
  refine ⟨lsp, rfl, fun u found => ?_⟩
  change (Entries.find? "servers" lsp).all isSectioned.areTables = true at servers
  rw [found] at servers
  cases u with
  | table members =>
    refine ⟨rfl, fun language e held => ?_⟩
    exact List.all_eq_true.mp servers _ (Entries.mem_of_find? held)
  | _ => cases servers

/-- Laying two tables over settings one after the other is laying the second over the first
and both over the settings. -/
theorem layer?_layer? {base mid : Settings} {low high : Entries Value}
    (order : base.lsp.servers.Increasing) (lowOrder : (Value.table low).Ordered)
    (highOrder : (Value.table high).Ordered) (lowSections : isSectioned (.table low) = true)
    (highSections : isSectioned (.table high) = true)
    (first : base.layer? (.table low) = some mid) :
    mid.layer? (.table high) = base.layer? ((Value.table low).merge (.table high)) := by
  have bothOrder : Entries.Increasing (Value.mergeMembers low high) :=
    Value.increasing_mergeMembers lowOrder.1 high
  have midOrder : mid.lsp.servers.Increasing :=
    increasing_of_ofToml? (Value.ordered_merge _ _ (ordered_toToml order) lowOrder) first
  rw [layer?_table base order lowOrder.1] at first
  simp only [Option.bind_eq_bind, Option.bind_eq_some_iff, Option.pure_def] at first
  obtain ⟨log, logRead, lsp, lspRead, eq⟩ := first
  obtain rfl := Option.some.inj eq
  have logEq : field (some log) (high.find? "log") (LogSettings.layer? log) =
      field (some base.log) (Value.laid (low.find? "log") (high.find? "log"))
        (LogSettings.layer? base.log) := by
    apply field_layers _ logRead
    intro u v mid given upper read
    obtain ⟨u, rfl, level⟩ := log_of_isSectioned lowSections given
    obtain ⟨v, rfl, -⟩ := log_of_isSectioned highSections upper
    have uOrder : (Value.table u).Ordered := Value.ordered_of_find? lowOrder.2 given
    have vOrder : (Value.table v).Ordered := Value.ordered_of_find? highOrder.2 upper
    exact LogSettings.layer?_layer? uOrder.1 vOrder.1 level read
  have lspEq : field (some lsp) (high.find? "lsp") (LspSettings.layer? lsp) =
      field (some base.lsp) (Value.laid (low.find? "lsp") (high.find? "lsp"))
        (LspSettings.layer? base.lsp) := by
    apply field_layers _ lspRead
    intro u v mid given upper read
    obtain ⟨u, rfl, uTables⟩ := lsp_of_isSectioned lowSections given
    obtain ⟨v, rfl, vTables⟩ := lsp_of_isSectioned highSections upper
    have uOrder : (Value.table u).Ordered := Value.ordered_of_find? lowOrder.2 given
    have vOrder : (Value.table v).Ordered := Value.ordered_of_find? highOrder.2 upper
    exact LspSettings.layer?_layer? order uOrder vOrder uTables vTables read
  rw [Value.merge, layer?_table base order bothOrder, layer?_table _ midOrder highOrder.1]
  simp only [Value.find?_mergeMembers _ _ highOrder.1, logEq, lspEq]

/-- A text is laid over settings as the table that it describes. -/
theorem merge_eq_ok_iff {base s : Settings} {text : String} :
    base.merge text = .ok s ↔
      ∃ v, Toml.read? text.toList = some v ∧ base.layer? v = some s := by
  rw [merge, ← Option.bind_eq_some_iff]
  cases (Toml.read? text.toList).bind base.layer? <;> simp

/-- Two layers compose: laid over settings one after the other, they give what they give when
the upper one is first laid over the lower one, key by key, and both are then laid over the
settings at once. -/
theorem layers_compose {base : Settings} (reached : base.Reached) {lower upper : String}
    {low high : Value} (lowRead : Toml.read? lower.toList = some low)
    (highRead : Toml.read? upper.toList = some high) (lowSections : isSectioned low = true)
    (highSections : isSectioned high = true) {mid final : Settings}
    (first : base.merge lower = .ok mid) (second : mid.merge upper = .ok final) :
    base.layer? (low.merge high) = some final ∧
      ∀ both : String, Toml.read? both.toList = some (low.merge high) →
        base.merge both = .ok final := by
  obtain ⟨lowTable, lowOrder⟩ := Toml.ordered_of_read? lowRead
  obtain ⟨highTable, highOrder⟩ := Toml.ordered_of_read? highRead
  obtain ⟨_, read, firstLaid⟩ := merge_eq_ok_iff.mp first
  obtain rfl := Option.some.inj (lowRead.symm.trans read)
  obtain ⟨_, read, secondLaid⟩ := merge_eq_ok_iff.mp second
  obtain rfl := Option.some.inj (highRead.symm.trans read)
  have once : base.layer? (low.merge high) = some final := by
    cases low with
    | table low =>
      cases high with
      | table high =>
        rw [← layer?_layer? reached.increasing lowOrder highOrder lowSections highSections
          firstLaid]
        exact secondLaid
      | _ => cases highTable
    | _ => cases lowTable
  exact ⟨once, fun both read => merge_eq_ok_iff.mpr ⟨_, read, once⟩⟩

/-- A server begun by one layer and completed by the next, over settings with another level. -/
theorem layers_compose_new_server :
    ∃ low high : Value,
      Toml.read? "[lsp.servers.go]\ncommand = \"gopls\"\n".toList = some low ∧
        Toml.read? "[lsp.servers.go]\nextensions = [\"go\"]\n".toList = some high ∧
        layer? ⟨⟨.debug, none⟩, .default⟩ (low.merge high) =
          some ⟨⟨.debug, none⟩, true, 10, 5,
            [("go", ⟨"gopls", [], ["go"]⟩), ("python", ⟨"pylsp", [], ["py", "pyi"]⟩),
              ("rust", ⟨"rust-analyzer", [], ["rs"]⟩)]⟩ := by
  have lowRead : (Toml.read? "[lsp.servers.go]\ncommand = \"gopls\"\n".toList).map isSectioned =
      some true := by decide +kernel
  have highRead : (Toml.read? "[lsp.servers.go]\nextensions = [\"go\"]\n".toList).map
      isSectioned = some true := by decide +kernel
  obtain ⟨low, lowRead, lowSections⟩ := Option.map_eq_some_iff.mp lowRead
  obtain ⟨high, highRead, highSections⟩ := Option.map_eq_some_iff.mp highRead
  have reached : Reached ⟨⟨.debug, none⟩, .default⟩ :=
    ⟨["[log]\nlevel = \"debug\"\n"], by decide +kernel⟩
  have first : merge ⟨⟨.debug, none⟩, .default⟩ "[lsp.servers.go]\ncommand = \"gopls\"\n" =
      .ok ⟨⟨.debug, none⟩, true, 10, 5,
        [("go", ⟨"gopls", [], []⟩), ("python", ⟨"pylsp", [], ["py", "pyi"]⟩),
          ("rust", ⟨"rust-analyzer", [], ["rs"]⟩)]⟩ := by decide +kernel
  have second : merge ⟨⟨.debug, none⟩, true, 10, 5,
      [("go", ⟨"gopls", [], []⟩), ("python", ⟨"pylsp", [], ["py", "pyi"]⟩),
        ("rust", ⟨"rust-analyzer", [], ["rs"]⟩)]⟩ "[lsp.servers.go]\nextensions = [\"go\"]\n" =
      .ok ⟨⟨.debug, none⟩, true, 10, 5,
        [("go", ⟨"gopls", [], ["go"]⟩), ("python", ⟨"pylsp", [], ["py", "pyi"]⟩),
          ("rust", ⟨"rust-analyzer", [], ["rs"]⟩)]⟩ := by decide +kernel
  exact ⟨low, high, lowRead, highRead,
    (layers_compose reached lowRead highRead lowSections highSections first second).1⟩

end Settings

end LanguageClient
