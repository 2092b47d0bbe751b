import LanguageClient.Proofs.Json.Fields
import LanguageClient.Proofs.Wire.Envelopes
import LanguageClient.Protocol.Document
import LanguageClient.Protocol.Handshake

/-!
# Values of the protocol are read back

Every kind of value that client and server exchange is read from JSON in several forms and written
in one.  What is written is read back, if its numbers are in their ranges and no member that may
be left out is null; and whatever has been read is such a value.
-/

set_option autoImplicit false

namespace LanguageClient

/-! ## Readers and writers -/

/-- The laws of a writer and a reader of one kind of value. -/
structure Lawful {α : Type} (write : α → Json) (read? : Json → Option α) (Fits : α → Prop) :
    Prop where
  /-- What fits is read back from what is written. -/
  read_write : ∀ x, Fits x → read? (write x) = some x
  /-- What has been read fits. -/
  fits_of_read : ∀ v x, read? v = some x → Fits x

/-- Whether values that fit are read back from what they are written as, and whatever has been
read is read again from what it is written as. -/
def RoundTrips {α : Type} (write : α → Json) (read? : Json → Option α) (Fits : α → Prop) : Prop :=
  (∀ x, Fits x → read? (write x) = some x) ∧
    ∀ v x, read? v = some x → read? (write x) = some x

theorem Lawful.roundTrips {α : Type} {write : α → Json} {read? : Json → Option α} {Fits : α → Prop}
    (lawful : Lawful write read? Fits) : RoundTrips write read? Fits :=
  ⟨lawful.read_write, fun v x read => lawful.read_write x (lawful.fits_of_read v x read)⟩

/-! ## Numbers -/

theorem Json.asNat?_eq_some_iff {bound n : Nat} {v : Json} :
    v.asNat? bound = some n ↔ v = .int n ∧ n < bound := by
  unfold asNat?
  split
  · rename_i m
    simp only [Option.ite_none_right_eq_some, Option.some.injEq, Json.int.injEq,
      Int.ofNat_eq_natCast]
    constructor
    · rintro ⟨small, rfl⟩
      exact ⟨rfl, small⟩
    · rintro ⟨same, small⟩
      obtain rfl : m = n := by omega
      exact ⟨small, rfl⟩
  · rename_i other
    simp only [reduceCtorEq, false_iff, not_and]
    rintro rfl
    exact absurd rfl (other n)

theorem natural32?_eq_some_iff {v : Json} {n : Nat} :
    natural32? v = some n ↔ v = .int n ∧ n < 2 ^ 32 :=
  Json.asNat?_eq_some_iff

/-! ## Fields of a record -/

/-- Whether a value that may be left out is not given as null. -/
def Proper (o : Option Json) : Prop := o ≠ some .null

theorem proper_filter (o : Option Json) : Proper (o.filter fun v => !v.isNull) := by
  intro null
  obtain ⟨-, other⟩ := Option.filter_eq_some_iff.mp null
  cases other

namespace Json.Record

variable {α : Type} {decode : Json → Option α} {r : Record} {index : Nat} {key : String}

theorem required_eq_some_iff {x : α} :
    r.required index key decode = some x ↔ ∃ v, r.get? index key = some v ∧ decode v = some x :=
  Option.bind_eq_some_iff

theorem orNull_eq_some_some {v : Json} {x : α} (h : orNull decode v = some (some x)) :
    decode v = some x := by
  unfold orNull at h
  split at h
  · cases h
  · obtain ⟨_, decoded, same⟩ := Option.map_eq_some_iff.mp h
    rw [decoded, Option.some.inj same]

/-- A value of an optional field has been decoded. -/
theorem decoded_of_optional {o : Option α} (h : r.optional index key decode = some o) {x : α}
    (held : o = some x) : ∃ v, decode v = some x := by
  subst held
  unfold optional at h
  split at h
  · cases h
  · exact ⟨_, orNull_eq_some_some h⟩

theorem decoded_of_optionalMember {o : Option α} (h : r.optionalMember index key decode = some o)
    {x : α} (held : o = some x) : ∃ v, decode v = some x := by
  subst held
  unfold optionalMember at h
  split at h
  · cases h
  · cases h
  · exact ⟨_, orNull_eq_some_some h⟩

/-- What is read as an optional value, if it is given. -/
def readOptional (decode : Json → Option α) (o : Option Json) : Option (Option α) :=
  o.elim (some none) (orNull decode)

theorem optional_eq : r.optional index key decode = readOptional decode (r.get? index key) := by
  unfold optional
  cases r.get? index key <;> rfl

variable {write : α → Json} {o : Option α}

/-- A value that is not written as null, or null in its place, is read as it was. -/
theorem orNull_written (proper : ∀ x, write x ≠ .null)
    (back : ∀ x, o = some x → decode (write x) = some x) :
    orNull decode (o.elim .null write) = some o := by
  cases o with
  | none => rfl
  | some x =>
    show orNull decode (write x) = _
    unfold orNull
    split
    · rename_i null
      exact absurd null (proper x)
    · rw [back x rfl]
      rfl

/-- A value that is not written as null, or left out, is read as it was. -/
theorem readOptional_written (proper : ∀ x, write x ≠ .null)
    (back : ∀ x, o = some x → decode (write x) = some x) :
    readOptional decode (o.map write) = some o := by
  cases o with
  | none => rfl
  | some x => exact orNull_written proper back

@[simp] theorem readOptional_string (o : Option String) :
    readOptional asString? (o.map .str) = some o :=
  readOptional_written (fun _ => Json.noConfusion) fun _ _ => rfl

theorem readOptional_value {o : Option Json} (proper : Proper o) :
    readOptional some o = some o := by
  cases o with
  | none => rfl
  | some v =>
    cases v with
    | null => exact absurd rfl proper
    | _ => rfl

end Json.Record

@[simp] theorem Json.record?_ofPresent (size : Nat) (members : List (String × Option Json)) :
    (Json.ofPresent members).record? size = some (.named (Entries.ofList (Json.present members))) :=
  rfl

@[simp] theorem Json.Record.get?_named (index : Nat) (key : String) (members : Json.Members) :
    (Json.Record.named members).get? index key = Entries.find? key members := rfl

/-! ## Positions and diagnostics -/

/-- Whether both numbers have 32 bits. -/
def Position.Fits (p : Position) : Prop := p.line < 2 ^ 32 ∧ p.character < 2 ^ 32

theorem Position.lawful : Lawful toJson ofJson? Fits where
  read_write := by
    rintro ⟨line, character⟩ ⟨hline, hcharacter⟩
    -- The fields of an object are found by name once its members are those of a list.
    have object : toJson ⟨line, character⟩ = Json.ofPresent
      [("line", some (.int line)), ("character", some (.int character))] := rfl
    simp [object, ofJson?, Json.Record.required, natural32?_eq_some_iff.mpr ⟨rfl, hline⟩,
      natural32?_eq_some_iff.mpr ⟨rfl, hcharacter⟩]
  fits_of_read := by
    intro v p h
    simp only [ofJson?, Option.bind_eq_bind, Option.bind_eq_some_iff, natural32?_eq_some_iff,
      Json.Record.required, Option.pure_def, Option.some.injEq] at h
    obtain ⟨r, -, line, ⟨_, -, -, hline⟩, character, ⟨_, -, -, hcharacter⟩, rfl⟩ := h
    exact ⟨hline, hcharacter⟩

/-- Whether both positions fit. -/
def Span.Fits (s : Span) : Prop := s.start.Fits ∧ s.stop.Fits

theorem Span.lawful : Lawful toJson ofJson? Fits where
  read_write := by
    rintro ⟨start, stop⟩ ⟨hstart, hstop⟩
    have object : toJson ⟨start, stop⟩ = Json.ofPresent
      [("start", some start.toJson), ("end", some stop.toJson)] := rfl
    simp [object, ofJson?, Json.Record.required, Position.lawful.read_write _ hstart,
      Position.lawful.read_write _ hstop]
  fits_of_read := by
    intro v s h
    simp only [ofJson?, Option.bind_eq_bind, Option.bind_eq_some_iff, Json.Record.required,
      Option.pure_def, Option.some.injEq] at h
    obtain ⟨r, -, start, ⟨_, -, hstart⟩, stop, ⟨_, -, hstop⟩, rfl⟩ := h
    exact ⟨Position.lawful.fits_of_read _ _ hstart, Position.lawful.fits_of_read _ _ hstop⟩

theorem Severity.bind_lenient (o : Option Severity) : (o.map toJson).bind lenient = o := by
  cases o with
  | none => rfl
  | some s => cases s <;> rfl

/-- Whether the span fits and the code is not null. -/
def Diagnostic.Fits (d : Diagnostic) : Prop := d.span.Fits ∧ Proper d.code

theorem Diagnostic.lawful : Lawful toJson ofJson? Fits where
  read_write := by
    rintro ⟨span, severity, code, source, message⟩ ⟨hspan, hcode⟩
    simp [toJson, ofJson?, Json.Record.required, Json.Record.optional_eq, Json.asString?,
      Span.lawful.read_write _ hspan, Json.Record.readOptional_value hcode, Severity.bind_lenient]
  fits_of_read := by
    intro v d h
    simp only [ofJson?, Option.bind_eq_bind, Option.bind_eq_some_iff, Json.Record.required,
      Json.Record.optional_some, Option.pure_def, Option.some.injEq] at h
    obtain ⟨r, -, span, ⟨_, -, hspan⟩, _, rfl, source, -, message, -, rfl⟩ := h
    exact ⟨Span.lawful.fits_of_read _ _ hspan, proper_filter _⟩

/-- Whether the version is one of 32 bits and all diagnostics fit. -/
def Publication.Fits (p : Publication) : Prop :=
  (∀ n, p.version = some n → Message.Signed (2 ^ 31) n) ∧ ∀ d ∈ p.diagnostics, d.Fits

theorem Publication.lawful : Lawful toJson ofJson? Fits where
  read_write := by
    rintro ⟨uri, version, diagnostics⟩ ⟨hversion, hdiagnostics⟩
    have readVersion : Json.Record.readOptional Json.int32? (version.map .int) = some version :=
      Json.Record.readOptional_written (fun _ => Json.noConfusion) fun n is =>
        Json.int32?_eq_some_iff.mpr ⟨rfl, hversion n is⟩
    have readList : Json.list? Diagnostic.ofJson? (.arr (diagnostics.map Diagnostic.toJson)) =
        some diagnostics := by
      refine Json.list?_eq_some_iff.mpr ⟨_, rfl, ?_⟩
      rw [List.forall₂_map_left_iff, List.forall₂_same]
      exact fun d member => Diagnostic.lawful.read_write d (hdiagnostics d member)
    simp [toJson, ofJson?, Json.Record.required, Json.Record.optional_eq, Json.asString?,
      readVersion, readList]
  fits_of_read := by
    intro v p h
    simp only [ofJson?, Option.bind_eq_bind, Option.bind_eq_some_iff, Json.Record.required,
      Option.pure_def, Option.some.injEq] at h
    obtain ⟨r, -, uri, -, version, hversion, diagnostics, ⟨list, -, hlist⟩, rfl⟩ := h
    refine ⟨fun n is => ?_, fun d member => ?_⟩
    · obtain ⟨_, number⟩ := Json.Record.decoded_of_optional hversion is
      exact (Json.int32?_eq_some_iff.mp number).2
    · obtain ⟨item, read⟩ := Json.decoded_of_list? hlist member
      exact Diagnostic.lawful.fits_of_read item d read

/-! ## Documents -/

/-- Whether the version is one of 32 bits. -/
def Document.Fits (d : Document) : Prop := Message.Signed (2 ^ 31) d.version

theorem Document.lawful : Lawful toJson ofJson? Fits where
  read_write := by
    rintro ⟨uri, language, version, text⟩ hversion
    have object : toJson ⟨uri, language, version, text⟩ = Json.ofPresent [("uri", some (.str uri)),
      ("languageId", some (.str language)), ("version", some (.int version)),
      ("text", some (.str text))] := rfl
    simp [object, ofJson?, Json.Record.required, Json.asString?,
      Json.int32?_eq_some_iff.mpr ⟨rfl, hversion⟩]
  fits_of_read := by
    intro v d h
    simp only [ofJson?, Option.bind_eq_bind, Option.bind_eq_some_iff, Json.Record.required,
      Json.int32?_eq_some_iff, Option.pure_def, Option.some.injEq] at h
    obtain ⟨r, -, uri, -, language, -, version, ⟨_, -, -, hversion⟩, text, -, rfl⟩ := h
    exact hversion

theorem DocumentName.lawful : Lawful toJson ofJson? fun _ => True where
  read_write := by
    rintro ⟨uri⟩ -
    have object : toJson ⟨uri⟩ = Json.ofPresent [("uri", some (.str uri))] := rfl
    simp [object, ofJson?, Json.Record.required, Json.asString?]
  fits_of_read _ _ _ := trivial

section

variable {α : Type} {write : α → Json} {read? : Json → Option α} {Fits : α → Prop}

/-- The parameters of a notification about one document, read as the document they are about. -/
def aboutDocument? (read? : Json → Option α) (v : Json) : Option α :=
  (v.record? 1).bind fun r => r.required 0 "textDocument" read?

/-- A document is read back from the parameters that are about it. -/
theorem Lawful.aboutDocument (lawful : Lawful write read? Fits) :
    Lawful (fun x => aboutDocument (write x)) (aboutDocument? read?) Fits where
  read_write := by
    intro x fits
    have object : LanguageClient.aboutDocument (write x) =
      Json.ofPresent [("textDocument", some (write x))] := rfl
    simp [object, aboutDocument?, Json.Record.required, lawful.read_write x fits]
  fits_of_read := by
    intro v x h
    obtain ⟨r, -, required⟩ := Option.bind_eq_some_iff.mp h
    obtain ⟨document, -, read⟩ := Json.Record.required_eq_some_iff.mp required
    exact lawful.fits_of_read document x read

end

theorem Document.lawful_opened :
    Lawful (fun d => aboutDocument d.toJson) openedDocument? Fits :=
  lawful.aboutDocument

theorem DocumentName.lawful_closed :
    Lawful (fun n => aboutDocument n.toJson) closedDocument? fun _ => True :=
  lawful.aboutDocument

/-! ## The handshake -/

theorem ProgramInfo.lawful : Lawful toJson ofJson? fun _ => True where
  read_write := by
    rintro ⟨name, version⟩ -
    simp [toJson, ofJson?, Json.Record.required, Json.Record.optional_eq, Json.asString?]
  fits_of_read _ _ _ := trivial

theorem ProgramInfo.readOptional_written (o : Option ProgramInfo) :
    Json.Record.readOptional ofJson? (o.map toJson) = some o :=
  Json.Record.readOptional_written (fun _ => Json.noConfusion) fun x _ =>
    lawful.read_write x trivial

/-- Whether the number of the process has 32 bits. -/
def InitializeParams.Fits (p : InitializeParams) : Prop := ∀ n, p.processId = some n → n < 2 ^ 32

theorem InitializeParams.lawful : Lawful toJson ofJson? Fits where
  read_write := by
    rintro ⟨processId, rootUri, capabilities, clientInfo⟩ hprocess
    have readProcess : Json.Record.orNull natural32?
        (processId.elim .null fun n => .int n) = some processId :=
      Json.Record.orNull_written (fun _ => Json.noConfusion) fun n is =>
        natural32?_eq_some_iff.mpr ⟨rfl, hprocess n is⟩
    have readRoot : Json.Record.orNull Json.asString? (rootUri.elim .null .str) = some rootUri :=
      Json.Record.orNull_written (fun _ => Json.noConfusion) fun _ _ => rfl
    simp [toJson, ofJson?, Json.Record.required, Json.Record.optional_eq,
      Json.Record.optionalMember, readProcess, readRoot, ProgramInfo.readOptional_written]
  fits_of_read := by
    intro v p h n is
    simp only [ofJson?, Option.bind_eq_bind, Option.bind_eq_some_iff, Option.pure_def,
      Option.some.injEq] at h
    obtain ⟨r, -, processId, hprocess, rootUri, -, capabilities, -, clientInfo, -, rfl⟩ := h
    obtain ⟨_, number⟩ := Json.Record.decoded_of_optionalMember hprocess is
    exact (natural32?_eq_some_iff.mp number).2

theorem InitializeResult.lawful : Lawful toJson ofJson? fun _ => True where
  read_write := by
    rintro ⟨capabilities, serverInfo⟩ -
    simp [toJson, ofJson?, Json.Record.optional_eq, ProgramInfo.readOptional_written]
  fits_of_read _ _ _ := trivial

/-! ## Error objects -/

/-- Whether the code is one of 32 bits and the data are not null. -/
def RpcError.Fits (e : RpcError) : Prop := Message.Signed (2 ^ 31) e.code ∧ Proper e.data

theorem RpcError.lawful : Lawful toJson ofJson? Fits where
  read_write := by
    rintro ⟨code, message, data⟩ ⟨hcode, hdata⟩
    simp [toJson, ofJson?, Json.Record.required, Json.Record.optional_eq, Json.asString?,
      Json.int32?_eq_some_iff.mpr ⟨rfl, hcode⟩, Json.Record.readOptional_value hdata]
  fits_of_read := by
    intro v e h
    -- An error object or an array of its fields: in both the code is checked and null left out.
    cases ofJson?_eq_some_iff.mp h with
    | named _ range _ => exact ⟨range, proper_filter _⟩
    | listed range _ => exact ⟨range, proper_filter _⟩

/-! ## All values -/

/-- Every kind of value of the protocol is read back from what it is written as, if its numbers
are in their ranges and its optional values are not null; and what has been read, from whatever
form, is read again from what it is written as. -/
theorem values_round_trip :
    RoundTrips Position.toJson Position.ofJson? Position.Fits ∧
    RoundTrips Span.toJson Span.ofJson? Span.Fits ∧
    RoundTrips Diagnostic.toJson Diagnostic.ofJson? Diagnostic.Fits ∧
    RoundTrips Publication.toJson Publication.ofJson? Publication.Fits ∧
    RoundTrips Document.toJson Document.ofJson? Document.Fits ∧
    RoundTrips DocumentName.toJson DocumentName.ofJson? (fun _ => True) ∧
    RoundTrips (fun d : Document => aboutDocument d.toJson) openedDocument? Document.Fits ∧
    RoundTrips (fun n : DocumentName => aboutDocument n.toJson) closedDocument? (fun _ => True) ∧
    RoundTrips ProgramInfo.toJson ProgramInfo.ofJson? (fun _ => True) ∧
    RoundTrips InitializeParams.toJson InitializeParams.ofJson? InitializeParams.Fits ∧
    RoundTrips InitializeResult.toJson InitializeResult.ofJson? (fun _ => True) ∧
    RoundTrips RpcError.toJson RpcError.ofJson? RpcError.Fits :=
  ⟨Position.lawful.roundTrips, Span.lawful.roundTrips, Diagnostic.lawful.roundTrips,
    Publication.lawful.roundTrips, Document.lawful.roundTrips, DocumentName.lawful.roundTrips,
    Document.lawful_opened.roundTrips, DocumentName.lawful_closed.roundTrips,
    ProgramInfo.lawful.roundTrips, InitializeParams.lawful.roundTrips,
    InitializeResult.lawful.roundTrips, RpcError.lawful.roundTrips⟩

/-- A diagnostic is read from an array and read again from an object, and a report of it is read
back. -/
theorem values_round_trip_report :
    let span : Span := ⟨⟨0, 1⟩, ⟨2, 3⟩⟩
    let d : Diagnostic := ⟨span, some .warning, some (.int 7), none, "m"⟩
    let v := Json.arr [.arr [.arr [.int 0, .int 1], .arr [.int 2, .int 3]], .int 2, .int 7,
      .null, .str "m"]
    let p : Publication := ⟨"u", some (-1), [d]⟩
    Diagnostic.ofJson? v = some d ∧ d.toJson ≠ v ∧ Diagnostic.ofJson? d.toJson = some d ∧
      p.Fits ∧ Publication.ofJson? p.toJson = some p := by
  intro span d v p
  obtain ⟨-, -, diagnostic, publication, -⟩ := values_round_trip
  have read : Diagnostic.ofJson? v = some d := by decide
  have whole : p.Fits := by
    refine ⟨fun n is => ?_, List.forall_mem_singleton.mpr (Diagnostic.lawful.fits_of_read v d read)⟩
    rw [← Option.some.inj is]
    exact ⟨by decide, by decide⟩
  exact ⟨read, Json.noConfusion, diagnostic.2 v d read, whole, publication.1 p whole⟩

end LanguageClient
