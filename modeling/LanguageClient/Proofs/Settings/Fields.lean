import LanguageClient.Proofs.Settings.Layering
import LanguageClient.Proofs.Toml.Merging

/-!
# Settings field by field

Settings over which a text is laid hold what the text gives where it gives something, and what
they held elsewhere; lists are replaced as a whole, servers are added and changed but never
removed, and keys that no setting has do nothing.  A text that is laid over settings twice does
what it does once, even where it gives sections that are no tables.
-/

set_option autoImplicit false

namespace LanguageClient

open Toml

/-! ## Fields given again -/

namespace Toml

variable {α : Type} {below : Option α} {given : Option Value} {decode : Value → Option α}
  {found : α}

/-- A field that has been given what it holds keeps it when the same is given again. -/
theorem field_again (first : field below given decode = some found) :
    field (some found) given decode = some found := by
  cases given with
  | none => rfl
  | some v => exact first

/-- The same for a field whose layers are laid over what it holds. -/
theorem field_layer_again {base : α} {layer : α → Value → Option α}
    (again : ∀ v, given = some v → layer base v = some found → layer found v = some found)
    (first : field (some base) given (layer base) = some found) :
    field (some found) given (layer found) = some found := by
  cases given with
  | none => rfl
  | some v => exact again v rfl first

end Toml

/-! ## Fields of sections -/

namespace ServerEntry

variable {held : Option ServerEntry}

/-- Laying a value over a server, field by field. -/
theorem layer?_eq_some_iff {v : Value} (table : v.isTable = true) (ordered : v.Ordered)
    {e : ServerEntry} : layer? held v = some e ↔
      field (held.map (·.command)) (v.get? "command") Value.asString? = some e.command ∧
      field (some (held.elim [] (·.args))) (v.get? "args") (Value.list? Value.asString?) =
        some e.args ∧
      field (some (held.elim [] (·.extensions))) (v.get? "extensions")
        (Value.list? Value.asString?) = some e.extensions := by
  obtain ⟨above, rfl⟩ := Value.exists_eq_table table
  rw [layer?_table held ordered.1]
  simp only [Option.bind_eq_bind, Option.bind_eq_some_iff, Option.pure_def, Option.some.injEq]
  constructor
  · rintro ⟨command, first, args, second, extensions, third, rfl⟩
    exact ⟨first, second, third⟩
  · rintro ⟨first, second, third⟩
    exact ⟨_, first, _, second, _, third, rfl⟩

/-- A value laid over a server again changes nothing. -/
theorem layer?_again {v : Value} (ordered : v.Ordered) {e : ServerEntry}
    (first : layer? held v = some e) : layer? (some e) v = some e := by
  cases table : v.isTable with
  | true =>
    obtain ⟨command, args, extensions⟩ := (layer?_eq_some_iff table ordered).mp first
    exact (layer?_eq_some_iff table ordered).mpr
      ⟨field_again command, field_again args, field_again extensions⟩
  | false =>
    cases held with
    | none => rwa [layer?, Value.merge_replaced table]
    | some held =>
      rw [layer?, Value.merge_replaced table] at first
      rwa [layer?, Value.merge_replaced table]

end ServerEntry

namespace LogSettings

variable {below s : LogSettings} {given : Option Value}

/-- Laying a section over log settings, field by field. -/
theorem field_layer?_eq_some_iff
    (tables : ∀ v, given = some v → v.isTable = true ∧ v.Ordered) :
    field (some below) given (layer? below) = some s ↔
      field (some below.level) (given.bind (·.get? "level")) LogLevel.ofToml? = some s.level ∧
      field (some below.file) (given.bind (·.get? "file")) (fun v => v.asString?.map some) =
        some s.file := by
  cases given with
  | none =>
    cases below
    cases s
    simp [field]
  | some v =>
    obtain ⟨table, ordered⟩ := tables v rfl
    obtain ⟨above, rfl⟩ := Value.exists_eq_table table
    rw [field, layer?_table below ordered.1]
    simp only [Option.bind_eq_bind, Option.bind_eq_some_iff, Option.pure_def,
      Option.some.injEq]
    constructor
    · rintro ⟨level, first, file, second, rfl⟩
      exact ⟨first, second⟩
    · rintro ⟨first, second⟩
      exact ⟨_, first, _, second, rfl⟩

theorem layer?_again {v : Value} (ordered : v.Ordered) (first : layer? below v = some s) :
    layer? s v = some s := by
  cases table : v.isTable with
  | true =>
    have tables : ∀ u, some v = some u → u.isTable = true ∧ u.Ordered := by
      rintro u ⟨⟩
      exact ⟨table, ordered⟩
    obtain ⟨level, file⟩ := (field_layer?_eq_some_iff tables).mp first
    exact (field_layer?_eq_some_iff tables).mpr ⟨field_again level, field_again file⟩
  | false =>
    rw [layer?, Value.merge_replaced table] at first
    rwa [layer?, Value.merge_replaced table]

end LogSettings

namespace LspSettings

/-! ## Servers -/

section Servers

variable {below servers : Entries ServerEntry} {given : Option Value}

/-- Laying a table over servers, server by server. -/
theorem field_layerServers?_eq_some_iff (order : below.Increasing)
    (tables : ∀ v, given = some v → v.isTable = true ∧ v.Ordered) :
    field (some below) given (layerServers? below) = some servers ↔
      servers.Increasing ∧ ∀ language,
        field (some (below.find? language)) (given.bind (·.get? language))
          (layerHeld? (below.find? language)) = some (servers.find? language) := by
  cases given with
  | none =>
    constructor
    · intro same
      obtain rfl := Option.some.inj same
      exact ⟨order, fun _ => rfl⟩
    · rintro ⟨increasing, same⟩
      exact congrArg some (Entries.eq_of_find? order increasing fun language =>
        Option.some.inj (same language))
  | some v =>
    obtain ⟨table, ordered⟩ := tables v rfl
    obtain ⟨above, rfl⟩ := Value.exists_eq_table table
    exact layerServers?_eq_some_iff order ordered.1

theorem layerServers?_again {v : Value} (order : below.Increasing) (ordered : v.Ordered)
    (first : layerServers? below v = some servers) : layerServers? servers v = some servers := by
  cases v with
  | table above =>
    obtain ⟨increasing, each⟩ := (layerServers?_eq_some_iff order ordered.1).mp first
    refine (layerServers?_eq_some_iff increasing ordered.1).mpr ⟨increasing, fun language => ?_⟩
    refine field_layer_again (fun v there laid => ?_) (each language)
    obtain ⟨e, read, eq⟩ := Option.map_eq_some_iff.mp laid
    rw [← eq, layerHeld?, ServerEntry.layer?_again (Value.ordered_of_find? ordered.2 there) read]
    rfl
  | _ => cases first

end Servers

/-- What a layer makes of the server of a language: where it mentions none, there is what was
there before, and otherwise a server with the fields that it gives. -/
structure Served (held : Option ServerEntry) (given : Option Value) (there : Option ServerEntry) :
    Prop where
  kept : given = none → there = held
  laid : ∀ v, given = some v → ∃ e, there = some e ∧
    field (held.map (·.command)) (v.get? "command") Value.asString? = some e.command ∧
    field (some (held.elim [] (·.args))) (v.get? "args") (Value.list? Value.asString?) =
      some e.args ∧
    field (some (held.elim [] (·.extensions))) (v.get? "extensions")
      (Value.list? Value.asString?) = some e.extensions

theorem field_layerHeld?_eq_some_iff {held there : Option ServerEntry} {given : Option Value}
    (tables : ∀ v, given = some v → v.isTable = true ∧ v.Ordered) :
    field (some held) given (layerHeld? held) = some there ↔ Served held given there := by
  cases given with
  | none =>
    constructor
    · intro same
      exact ⟨fun _ => (Option.some.inj same).symm, fun _ absent => by cases absent⟩
    · intro served
      exact congrArg some (served.kept rfl).symm
  | some v =>
    obtain ⟨table, ordered⟩ := tables v rfl
    rw [field, layerHeld?, Option.map_eq_some_iff]
    constructor
    · rintro ⟨e, read, rfl⟩
      refine ⟨fun absent => (by cases absent), ?_⟩
      rintro _ ⟨⟩
      exact ⟨e, rfl, (ServerEntry.layer?_eq_some_iff table ordered).mp read⟩
    · intro served
      obtain ⟨e, rfl, fields⟩ := served.laid v rfl
      exact ⟨e, (ServerEntry.layer?_eq_some_iff table ordered).mpr fields, rfl⟩

/-- Only the fields of servers count. -/
theorem Served.congr {held there : Option ServerEntry} {given other : Option Value}
    (mentioned : other.isSome = given.isSome)
    (same : ∀ key ∈ ["command", "args", "extensions"],
      other.bind (·.get? key) = given.bind (·.get? key))
    (served : Served held given there) : Served held other there := by
  refine ⟨fun nothing => served.kept ?_, fun v given' => ?_⟩
  · rw [nothing, Option.isSome_none] at mentioned
    exact Option.not_isSome_iff_eq_none.mp (by simp [← mentioned])
  · subst given'
    obtain ⟨u, rfl⟩ := Option.isSome_iff_exists.mp mentioned.symm
    obtain ⟨e, eq, command, args, extensions⟩ := served.laid u rfl
    have fields : ∀ key ∈ ["command", "args", "extensions"], v.get? key = u.get? key := same
    refine ⟨e, eq, ?_, ?_, ?_⟩
    · rwa [fields "command" (by simp)]
    · rwa [fields "args" (by simp)]
    · rwa [fields "extensions" (by simp)]

/-- There is a server for a language if there was one, or if one is mentioned. -/
theorem Served.isSome {held there : Option ServerEntry} {given : Option Value}
    (served : Served held given there) : there.isSome = (held.isSome || given.isSome) := by
  cases given with
  | none => simp [served.kept rfl]
  | some v =>
    obtain ⟨e, rfl, -⟩ := served.laid v rfl
    simp

/-! ## The section of the servers -/

variable {below s : LspSettings} {given : Option Value}

/-- Laying a section over the settings of servers, field by field. -/
theorem field_layer?_eq_some_iff (order : below.servers.Increasing)
    (tables : ∀ v, given = some v → v.isTable = true ∧ v.Ordered) :
    field (some below) given (layer? below) = some s ↔
      field (some below.enabled) (given.bind (·.get? "enabled")) Value.asBool? =
        some s.enabled ∧
      field (some below.requestTimeout) (given.bind (·.get? "request_timeout_secs"))
        Value.asNat? = some s.requestTimeout ∧
      field (some below.shutdownTimeout) (given.bind (·.get? "shutdown_timeout_secs"))
        Value.asNat? = some s.shutdownTimeout ∧
      field (some below.servers) (given.bind (·.get? "servers")) (layerServers? below.servers) =
        some s.servers := by
  cases given with
  | none =>
    cases below
    cases s
    simp [field]
  | some v =>
    obtain ⟨table, ordered⟩ := tables v rfl
    obtain ⟨above, rfl⟩ := Value.exists_eq_table table
    rw [field, layer?_table below order ordered.1]
    simp only [Option.bind_eq_bind, Option.bind_eq_some_iff, Option.pure_def,
      Option.some.injEq]
    constructor
    · rintro ⟨enabled, first, request, second, shutdown, third, servers, fourth, rfl⟩
      exact ⟨first, second, third, fourth⟩
    · rintro ⟨first, second, third, fourth⟩
      exact ⟨_, first, _, second, _, third, _, fourth, rfl⟩

theorem layer?_again {v : Value} (order : below.servers.Increasing) (ordered : v.Ordered)
    (first : layer? below v = some s) : layer? s v = some s := by
  cases table : v.isTable with
  | true =>
    have tables : ∀ u, some v = some u → u.isTable = true ∧ u.Ordered := by
      rintro u ⟨⟩
      exact ⟨table, ordered⟩
    have increasing : s.servers.Increasing :=
      increasing_of_ofToml? (Value.ordered_merge _ v (ordered_toToml order) ordered) first
    obtain ⟨enabled, request, shutdown, servers⟩ := (field_layer?_eq_some_iff order tables).mp first
    refine (field_layer?_eq_some_iff increasing tables).mpr
      ⟨field_again enabled, field_again request, field_again shutdown, ?_⟩
    refine field_layer_again (fun u given laid => ?_) servers
    have inOrder : u.Ordered := Value.ordered_of_get? ordered given
    exact layerServers?_again order inOrder laid
  | false =>
    rw [layer?, Value.merge_replaced table] at first
    rwa [layer?, Value.merge_replaced table]

end LspSettings

/-! ## All settings -/

namespace Settings

variable {base s : Settings} {layer : Value}

/-- Laying a text over settings that it has been laid over already changes nothing. -/
theorem merge_again (order : base.lsp.servers.Increasing) {text : String}
    (first : base.merge text = .ok s) : s.merge text = .ok s := by
  have increasing : s.lsp.servers.Increasing := increasing_of_merge order first
  obtain ⟨v, read, laid⟩ := merge_eq_ok_iff.mp first
  obtain ⟨table, ordered⟩ := Toml.ordered_of_read? read
  refine merge_eq_ok_iff.mpr ⟨v, read, ?_⟩
  obtain ⟨above, rfl⟩ := Value.exists_eq_table table
  rw [layer?_table base order ordered.1] at laid
  simp only [Option.bind_eq_bind, Option.bind_eq_some_iff, Option.pure_def,
    Option.some.injEq] at laid
  obtain ⟨log, logRead, lsp, lspRead, rfl⟩ := laid
  have logAgain := field_layer_again (fun v given laid =>
    LogSettings.layer?_again (Value.ordered_of_find? ordered.2 given) laid) logRead
  have lspAgain := field_layer_again (fun v given laid =>
    LspSettings.layer?_again order (Value.ordered_of_find? ordered.2 given) laid) lspRead
  rw [layer?_table _ increasing ordered.1, logAgain, lspAgain]
  rfl

theorem merge_eq_error {text : String} {e : SettingsError} (failed : base.merge text = .error e) :
    e = .parse none := by
  unfold merge at failed
  split at failed
  · cases failed
  · exact (Except.error.inj failed).symm

/-- Texts that give the same settings, if any, fail alike. -/
theorem merge_congr {text more : String}
    (same : ∀ s, base.merge more = .ok s ↔ base.merge text = .ok s) :
    base.merge more = base.merge text := by
  cases right : base.merge text with
  | ok s => exact (same s).mpr right
  | error e =>
    cases left : base.merge more with
    | ok s =>
      rw [(same s).mp left] at right
      cases right
    | error e' => rw [merge_eq_error left, merge_eq_error right]

/-- Whether a layer gives its sections, and the servers that it mentions, as tables. -/
structure InTables (layer : Value) : Prop where
  log : ∀ v, layer.at? ["log"] = some v → v.isTable = true
  lsp : ∀ v, layer.at? ["lsp"] = some v → v.isTable = true
  servers : ∀ v, layer.at? ["lsp", "servers"] = some v → v.isTable = true
  server : ∀ language v, layer.at? ["lsp", "servers", language] = some v → v.isTable = true

/-- Settings that hold what a layer gives, and what a base holds where the layer gives
nothing. -/
structure Overlaid (base : Settings) (layer : Value) (s : Settings) : Prop where
  level : field (some base.log.level) (layer.at? ["log", "level"]) LogLevel.ofToml? =
    some s.log.level
  file : field (some base.log.file) (layer.at? ["log", "file"]) (fun v => v.asString?.map some) =
    some s.log.file
  enabled : field (some base.lsp.enabled) (layer.at? ["lsp", "enabled"]) Value.asBool? =
    some s.lsp.enabled
  requestTimeout : field (some base.lsp.requestTimeout)
    (layer.at? ["lsp", "request_timeout_secs"]) Value.asNat? = some s.lsp.requestTimeout
  shutdownTimeout : field (some base.lsp.shutdownTimeout)
    (layer.at? ["lsp", "shutdown_timeout_secs"]) Value.asNat? = some s.lsp.shutdownTimeout
  servers : ∀ language, LspSettings.Served (base.lsp.servers.find? language)
    (layer.at? ["lsp", "servers", language]) (s.lsp.servers.find? language)
  increasing : s.lsp.servers.Increasing

/-- What a layer in tables makes of settings. -/
theorem layer?_eq_some_iff (order : base.lsp.servers.Increasing) (table : layer.isTable = true)
    (ordered : layer.Ordered) (tables : InTables layer) :
    base.layer? layer = some s ↔ Overlaid base layer s := by
  have sections : base.layer? layer = some s ↔
      field (some base.log) (layer.at? ["log"]) (LogSettings.layer? base.log) = some s.log ∧
      field (some base.lsp) (layer.at? ["lsp"]) (LspSettings.layer? base.lsp) = some s.lsp := by
    obtain ⟨above, rfl⟩ := Value.exists_eq_table table
    rw [layer?_table base order ordered.1, ← List.nil_append ["log"], Value.at?_concat,
      ← List.nil_append ["lsp"], Value.at?_concat]
    simp only [Option.bind_eq_bind, Option.bind_eq_some_iff, Option.pure_def,
      Option.some.injEq, Value.at?, Option.bind_some, Value.get?]
    constructor
    · rintro ⟨log, logRead, lsp, lspRead, rfl⟩
      exact ⟨logRead, lspRead⟩
    · rintro ⟨logRead, lspRead⟩
      exact ⟨_, logRead, _, lspRead, rfl⟩
  have inTables : ∀ path, (∀ v, layer.at? path = some v → v.isTable = true) →
      ∀ v, layer.at? path = some v → v.isTable = true ∧ v.Ordered :=
    fun path table v there => ⟨table v there, Value.ordered_at? ordered there⟩
  rw [sections, LogSettings.field_layer?_eq_some_iff (inTables ["log"] tables.log),
    LspSettings.field_layer?_eq_some_iff order (inTables ["lsp"] tables.lsp)]
  simp only [← Value.at?_concat, List.cons_append, List.nil_append]
  rw [LspSettings.field_layerServers?_eq_some_iff order
    (inTables ["lsp", "servers"] tables.servers)]
  simp only [← Value.at?_concat, List.cons_append, List.nil_append]
  have each := fun language => @LspSettings.field_layerHeld?_eq_some_iff
    (base.lsp.servers.find? language) (s.lsp.servers.find? language) _
    (inTables ["lsp", "servers", language] (tables.server language))
  simp only [each]
  constructor
  · rintro ⟨⟨level, file⟩, enabled, request, shutdown, increasing, servers⟩
    exact ⟨level, file, enabled, request, shutdown, servers, increasing⟩
  · intro o
    exact ⟨⟨o.level, o.file⟩, o.enabled, o.requestTimeout, o.shutdownTimeout, o.increasing,
      o.servers⟩

/-- Whether two layers give the same settings, whatever else they hold. -/
structure SameSettings (layer other : Value) : Prop where
  log : ∀ key ∈ ["level", "file"], other.at? ["log", key] = layer.at? ["log", key]
  lsp : ∀ key ∈ ["enabled", "request_timeout_secs", "shutdown_timeout_secs"],
    other.at? ["lsp", key] = layer.at? ["lsp", key]
  languages : ∀ language, (other.at? ["lsp", "servers", language]).isSome =
    (layer.at? ["lsp", "servers", language]).isSome
  server : ∀ language, ∀ key ∈ ["command", "args", "extensions"],
    other.at? ["lsp", "servers", language, key] = layer.at? ["lsp", "servers", language, key]

theorem SameSettings.symm {other : Value} (same : SameSettings layer other) :
    SameSettings other layer where
  log key known := (same.log key known).symm
  lsp key known := (same.lsp key known).symm
  languages language := (same.languages language).symm
  server language key known := (same.server language key known).symm

theorem Overlaid.congr {other : Value} (same : SameSettings layer other)
    (overlaid : Overlaid base layer s) : Overlaid base other s := by
  refine ⟨?_, ?_, ?_, ?_, ?_, fun language => ?_, overlaid.increasing⟩
  · rw [same.log "level" (by simp)]
    exact overlaid.level
  · rw [same.log "file" (by simp)]
    exact overlaid.file
  · rw [same.lsp "enabled" (by simp)]
    exact overlaid.enabled
  · rw [same.lsp "request_timeout_secs" (by simp)]
    exact overlaid.requestTimeout
  · rw [same.lsp "shutdown_timeout_secs" (by simp)]
    exact overlaid.shutdownTimeout
  · refine (overlaid.servers language).congr (same.languages language) fun key known => ?_
    rw [← Value.at?_concat, ← Value.at?_concat]
    exact same.server language key known

/-- Laying a text over settings that come from the defaults goes field by field, where sections
and servers are given as tables: each setting is what the text gives, or else what it was, and
is given whole; the languages are those that were there and those that the text mentions; keys
that no setting has do nothing.  An empty text changes nothing, and neither does any text whose
settings are there already. -/
theorem merge_by_field (reached : base.Reached) :
    (∀ {text : String} {layer : Value}, Toml.read? text.toList = some layer → InTables layer →
      (∀ s, base.merge text = .ok s ↔ Overlaid base layer s) ∧
      (∀ s, base.merge text = .ok s → ∀ language, language ∈ s.lsp.servers.keys ↔
        language ∈ base.lsp.servers.keys ∨
          (layer.at? ["lsp", "servers", language]).isSome = true) ∧
      ∀ {more : String} {other : Value}, Toml.read? more.toList = some other → InTables other →
        SameSettings layer other → base.merge more = base.merge text) ∧
    base.merge "" = .ok base ∧
    ∀ {text : String} {s : Settings}, base.merge text = .ok s → s.merge text = .ok s := by
  have order := reached.increasing
  have overlaid : ∀ {text : String} {layer : Value}, Toml.read? text.toList = some layer →
      InTables layer → ∀ s, base.merge text = .ok s ↔ Overlaid base layer s := by
    intro text layer read tables s
    obtain ⟨table, ordered⟩ := Toml.ordered_of_read? read
    rw [merge_eq_ok_iff, ← layer?_eq_some_iff order table ordered tables]
    simp [read]
  refine ⟨fun {text layer} read tables => ⟨overlaid read tables, fun s merged language => ?_, ?_⟩,
    ?_, merge_again order⟩
  · have served := ((overlaid read tables s).mp merged).servers language
    rw [Entries.mem_keys_iff, Entries.mem_keys_iff, served.isSome, Bool.or_eq_true]
  · intro more other otherRead otherTables same
    refine merge_congr fun s => ?_
    rw [overlaid read tables, overlaid otherRead otherTables]
    exact ⟨Overlaid.congr same.symm, Overlaid.congr same⟩
  · exact merge_eq_ok_iff.mpr ⟨.empty, rfl, layer?_empty base order⟩

theorem inTables_of_isSectioned {layer : Value} (table : layer.isTable = true)
    (sectioned : isSectioned layer = true) : InTables layer := by
  obtain ⟨above, rfl⟩ := Value.exists_eq_table table
  have first : ∀ key, (Value.table above).at? [key] = Entries.find? key above := fun key =>
    Value.at?_concat (.table above) [] key
  have lsp : ∀ v, (Value.table above).at? ["lsp"] = some v →
      ∃ lsp, v = .table lsp ∧ LspSettings.GivesTables lsp := by
    intro v there
    exact lsp_of_isSectioned sectioned (first "lsp" ▸ there)
  have servers : ∀ v, (Value.table above).at? ["lsp", "servers"] = some v → v.isTable = true ∧
      ∀ language u, v.get? language = some u → u.isTable = true := by
    intro v there
    obtain ⟨u, held, given⟩ := Option.bind_eq_some_iff.mp
      ((Value.at?_concat _ ["lsp"] "servers").symm.trans there)
    obtain ⟨members, rfl, tables⟩ := lsp u held
    exact tables v given
  refine ⟨fun v there => ?_, fun v there => ?_, fun v there => (servers v there).1,
    fun language v there => ?_⟩
  · obtain ⟨log, rfl, -⟩ := log_of_isSectioned sectioned (first "log" ▸ there)
    rfl
  · obtain ⟨members, rfl, -⟩ := lsp v there
    rfl
  · obtain ⟨u, held, given⟩ := Option.bind_eq_some_iff.mp
      ((Value.at?_concat _ ["lsp", "servers"] language).symm.trans there)
    exact (servers u held).2 language v given

/-- A new argument of a server, between keys that mean nothing. -/
theorem merge_by_field_new_argument :
    let base : Settings := ⟨⟨.debug, some "client.log"⟩, .default⟩
    let text := "color = 1\n[lsp.servers.python]\nargs = [\"-v\"]\nshade = 2\n"
    let s : Settings := ⟨⟨.debug, some "client.log"⟩, true, 10, 5,
      [("python", ⟨"pylsp", ["-v"], ["py", "pyi"]⟩), ("rust", ⟨"rust-analyzer", [], ["rs"]⟩)]⟩
    base.Reached ∧ (∃ layer, Toml.read? text.toList = some layer ∧ Overlaid base layer s) ∧
      base.merge "" = .ok base ∧ s.merge text = .ok s := by
  intro base text s
  have reached : base.Reached :=
    ⟨["[log]\nlevel = \"debug\"\nfile = \"client.log\"\n"], by decide +kernel⟩
  have merged : base.merge text = .ok s := by decide +kernel
  have sections : (Toml.read? text.toList).map isSectioned = some true := by decide +kernel
  obtain ⟨layer, read, sectioned⟩ := Option.map_eq_some_iff.mp sections
  have tables := inTables_of_isSectioned (Toml.ordered_of_read? read).1 sectioned
  obtain ⟨fields, empty, again⟩ := merge_by_field reached
  exact ⟨reached, ⟨layer, read, ((fields read tables).1 s).mp merged⟩, empty, again merged⟩

end Settings

end LanguageClient
