import LanguageClient.Proofs.Json.Reading
import LanguageClient.Proofs.Json.Records
import LanguageClient.Proofs.Wire.Streams

/-!
# Messages are read back

A message whose numbers fit comes back from its frame as it was, but for one thing: an
error object whose data are null comes back without data.
-/

set_option autoImplicit false

namespace LanguageClient

/-- Whether a value is one that can be held and printed exactly: its objects are in order
and its numbers are integers of 64 bits. -/
def Json.Plain (v : Json) : Prop := v.Ordered ∧ v.Integral

namespace Message

/-- Whether a number is a signed integer of a range with so many negative numbers. -/
def Signed (half : Int) (i : Int) : Prop := -half ≤ i ∧ i ≤ half - 1

/-- Whether all parts of a message lie in their ranges. -/
def Fits : Message → Prop
  | .request id _ params => Signed (2 ^ 63) id ∧ params.Plain
  | .response id (.ok result) => Signed (2 ^ 63) id ∧ result.Plain
  | .response id (.error e) => Signed (2 ^ 63) id ∧ Signed (2 ^ 31) e.code ∧ ∀ d, e.data = some d → d.Plain
  | .notification _ params => params.Plain

/-- Whether a message is an error whose data are given as null. -/
def HasNullData : Message → Prop
  | .response _ (.error e) => e.data = some .null
  | _ => False

/-- An error object without data that are null. -/
def withoutNull (e : RpcError) : RpcError :=
  { e with data := e.data.filter fun d => !d.isNull }

/-- What a message comes back as. -/
def received : Message → Message
  | .response id (.error e) => .response id (.error (withoutNull e))
  | m => m

/-- Exactly the messages without null data come back as they were. -/
theorem received_eq_self_iff (m : Message) : m.received = m ↔ ¬ m.HasNullData := by
  match m with
  | .request .. | .response _ (.ok _) | .notification .. => simp [received, HasNullData]
  | .response id (.error ⟨code, message, data⟩) =>
    cases data with
    | none => simp [received, withoutNull, HasNullData]
    | some d => cases d <;> simp [received, withoutNull, HasNullData, Json.isNull]

/-! ## The object of a message -/

theorem plain_int {i : Int} (h : Signed (2 ^ 63) i) : (Json.int i).Plain := by
  unfold Signed at h
  refine ⟨trivial, ?_, ?_⟩ <;> omega

theorem plain_ofPresent {members : List (String × Option Json)}
    (h : ∀ k v, (k, some v) ∈ members → v.Plain) : (Json.ofPresent members).Plain :=
  ⟨Json.ordered_ofPresent fun k v hv => (h k v hv).1,
    Json.integral_ofPresent fun k v hv => (h k v hv).2⟩

theorem paramsMember_eq_some {params v : Json} (h : paramsMember params = some v) :
    v = params := by
  unfold paramsMember at h
  split at h <;> simp_all

/-- The error object of a message that fits is plain. -/
theorem plain_error {e : RpcError} (code : Signed (2 ^ 31) e.code)
    (data : ∀ d, e.data = some d → d.Plain) : e.toJson.Plain := by
  have wide : Signed (2 ^ 63) e.code := by
    unfold Signed at code ⊢
    omega
  refine plain_ofPresent fun k v hv => ?_
  simp only [List.mem_cons, Prod.mk.injEq, Option.some.injEq, List.not_mem_nil, or_false] at hv
  rcases hv with ⟨-, rfl⟩ | ⟨-, rfl⟩ | ⟨-, given⟩
  · exact plain_int wide
  · exact ⟨trivial, trivial⟩
  · exact data v given.symm

/-- The object of a message that fits is plain. -/
theorem plain_toJson {m : Message} (fits : m.Fits) : m.toJson.Plain := by
  match m, fits with
  | .request id method params, ⟨idFits, plain⟩ =>
    refine plain_ofPresent fun k v hv => ?_
    simp only [List.mem_cons, Prod.mk.injEq, Option.some.injEq, List.not_mem_nil, or_false] at hv
    rcases hv with ⟨-, rfl⟩ | ⟨-, rfl⟩ | ⟨-, rfl⟩ | ⟨-, given⟩
    · exact ⟨trivial, trivial⟩
    · exact plain_int idFits
    · exact ⟨trivial, trivial⟩
    · rw [paramsMember_eq_some given.symm]
      exact plain
  | .response id (.ok result), ⟨idFits, plain⟩ =>
    refine plain_ofPresent fun k v hv => ?_
    simp only [List.mem_cons, Prod.mk.injEq, Option.some.injEq, List.not_mem_nil, or_false] at hv
    rcases hv with ⟨-, rfl⟩ | ⟨-, rfl⟩ | ⟨-, rfl⟩
    · exact ⟨trivial, trivial⟩
    · exact plain_int idFits
    · exact plain
  | .response id (.error e), ⟨idFits, code, data⟩ =>
    refine plain_ofPresent fun k v hv => ?_
    simp only [List.mem_cons, Prod.mk.injEq, Option.some.injEq, List.not_mem_nil, or_false] at hv
    rcases hv with ⟨-, rfl⟩ | ⟨-, rfl⟩ | ⟨-, rfl⟩
    · exact ⟨trivial, trivial⟩
    · exact plain_int idFits
    · exact plain_error code data
  | .notification method params, plain =>
    refine plain_ofPresent fun k v hv => ?_
    simp only [List.mem_cons, Prod.mk.injEq, Option.some.injEq, List.not_mem_nil, or_false] at hv
    rcases hv with ⟨-, rfl⟩ | ⟨-, rfl⟩ | ⟨-, given⟩
    · exact ⟨trivial, trivial⟩
    · exact ⟨trivial, trivial⟩
    · rw [paramsMember_eq_some given.symm]
      exact plain

/-! ## Reading the object -/

theorem getD_paramsMember (params : Json) : (paramsMember params).getD .null = params := by
  unfold paramsMember
  cases params <;> rfl

theorem int64?_int {i : Int} (h : Signed (2 ^ 63) i) : Json.int64? (.int i) = some i := by
  simp only [Json.int64?, Json.asInt?]
  exact if_pos h

theorem int32?_int {i : Int} (h : Signed (2 ^ 31) i) : Json.int32? (.int i) = some i := by
  simp only [Json.int32?, Json.asInt?]
  exact if_pos h

/-- The error object is read back, without data that are null. -/
theorem ofJson?_error {e : RpcError} (code : Signed (2 ^ 31) e.code) :
    RpcError.ofJson? e.toJson = some (withoutNull e) := by
  have named : e.toJson.record? 3 = some (.named (Entries.ofList (Json.present
      [("code", some (.int e.code)), ("message", some (.str e.message)), ("data", e.data)]))) :=
    rfl
  simp [RpcError.ofJson?, named, Json.Record.required, Json.Record.optional_some,
    Json.Record.get?, int32?_int code, Json.asString?, withoutNull]

/-- An object is a message by its identifier and its method. -/
theorem ofJson?_object {v : Json} {id : Option Int} {method : Option String}
    (object : v.isObject = true) (hid : id? v = .ok id) (hmethod : methodMember? v = .ok method) :
    ofJson? v =
      match id, method with
      | some id, some method => .ok (.request id method ((v.get? "params").getD .null))
      | some id, none => (outcome? v).map (.response id)
      | none, some method => .ok (.notification method ((v.get? "params").getD .null))
      | none, none => .error .unaddressed := by
  simp only [ofJson?, object, if_true, hid, hmethod, bind, Except.bind]
  cases id <;> cases method <;> rfl

/-- The object of a message that fits is read as the message that comes back. -/
theorem ofJson?_toJson {m : Message} (fits : m.Fits) : ofJson? m.toJson = .ok m.received := by
  match m, fits with
  | .request id method params, ⟨idFits, _⟩ =>
    have hid : id? (request id method params).toJson = .ok (some id) := by
      simp [toJson, id?, int64?_int idFits]
    have hmethod : methodMember? (request id method params).toJson = .ok (some method) := by
      simp [toJson, methodMember?, Json.asString?]
    rw [ofJson?_object rfl hid hmethod]
    simp [toJson, received, getD_paramsMember]
  | .response id (.ok result), ⟨idFits, _⟩ =>
    have hid : id? (response id (.ok result)).toJson = .ok (some id) := by
      simp [toJson, id?, int64?_int idFits]
    have hmethod : methodMember? (response id (.ok result)).toJson = .ok none := by
      simp [toJson, methodMember?]
    have houtcome : outcome? (response id (.ok result)).toJson = .ok (.ok result) := by
      simp [toJson, outcome?]
    rw [ofJson?_object rfl hid hmethod]
    simp [houtcome, received, Except.map]
  | .response id (.error e), ⟨idFits, code, _⟩ =>
    have hid : id? (response id (.error e)).toJson = .ok (some id) := by
      simp [toJson, id?, int64?_int idFits]
    have hmethod : methodMember? (response id (.error e)).toJson = .ok none := by
      simp [toJson, methodMember?]
    have houtcome : outcome? (response id (.error e)).toJson = .ok (.error (withoutNull e)) := by
      obtain ⟨members, object⟩ : ∃ members, e.toJson = .obj members := ⟨_, rfl⟩
      have error := ofJson?_error code
      rw [object] at error
      simp [toJson, outcome?, object, error]
    rw [ofJson?_object rfl hid hmethod]
    simp [houtcome, received, Except.map]
  | .notification method params, _ =>
    have hid : id? (notification method params).toJson = .ok none := by
      simp [toJson, id?]
    have hmethod : methodMember? (notification method params).toJson = .ok (some method) := by
      simp [toJson, methodMember?, Json.asString?]
    rw [ofJson?_object rfl hid hmethod]
    simp [toJson, received, getD_paramsMember]

/-- The body of a message is read as the message that comes back. -/
theorem parse?_body {m : Message} (fits : m.Fits) (shallow : m.toJson.depth ≤ Json.nestingLimit) :
    parse? m.body = .ok m.received := by
  have plain := plain_toJson fits
  rw [parse?, body, Json.readBytes?_text plain.2 plain.1 shallow]
  exact ofJson?_toJson fits

/-- Reading the frame of a message takes exactly its bytes, whatever follows them, and gives
the message, except that null data of an error are gone. -/
theorem scan_parse_encode {m : Message} (fits : m.Fits)
    (shallow : m.toJson.depth ≤ Json.nestingLimit) (short : m.body.length ≤ Frame.maxBody) :
    (∀ rest, Frame.scan (m.encode ++ rest) = .frame m.body rest) ∧
      parse? m.body = .ok m.received ∧
      outcomes m.encode = ([.ok m.received], none) ∧
      (parse? m.body = .ok m ↔ ¬ m.HasNullData) := by
  have parsed := parse?_body fits shallow
  refine ⟨fun rest => Frame.scan_encode_append short rest, parsed, ?_, ?_⟩
  · have fit : ∀ b ∈ [m.body], b.length ≤ Frame.maxBody := by simpa using short
    have stream := outcomes_frames fit []
    rw [outcomes_nil] at stream
    simpa [parsed, encode] using stream
  · rw [parsed, Except.ok.injEq]
    exact received_eq_self_iff m

/-- An error with the least identifier, text beyond ASCII and nested data comes back. -/
theorem scan_parse_encode_error :
    let m : Message := .response (-(2 ^ 63)) (.error ⟨-32601, "\"π\n", some (.obj
      [("k", .arr [.int (2 ^ 64 - 1), .null])])⟩)
    m.Fits ∧ parse? m.body = .ok m := by
  intro m
  have fits : m.Fits := by
    refine ⟨?_, ?_, ?_⟩
    · unfold Signed
      decide
    · unfold Signed
      decide
    · rintro d ⟨⟩
      simp [Json.Plain, Json.Ordered, Json.OrderedMembers, Json.OrderedItems, Entries.Increasing,
        Entries.keys, Json.Integral, Json.IntegralMembers, Json.IntegralItems]
  have known : ¬ m.HasNullData := by simp [m, HasNullData]
  exact ⟨fits, (scan_parse_encode fits (by decide) (by decide +kernel)).2.2.2.mpr known⟩

end Message

end LanguageClient
