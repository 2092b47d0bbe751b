import LanguageClient.Proofs.Json.Grammar
import LanguageClient.Proofs.Wire.RoundTrip
import LanguageClient.Session.Step

/-!
# Envelopes

Which bodies are messages, and which message a body is.  A message is read from five members of
an object, the last of each key; what their values have to be, and what the message is then, is
written down as `Envelope.Acceptable` and `Envelope.Means`, and reading is proved to follow it.
A body that is no message is a fault of its own and never one of the stream.
-/

set_option autoImplicit false

namespace LanguageClient

/-! ## Values inside an envelope -/

theorem Json.asInt?_eq_some_iff {low high i : Int} {v : Json} :
    v.asInt? low high = some i ↔ v = .int i ∧ low ≤ i ∧ i ≤ high := by
  cases v with
  | int j =>
    simp only [asInt?, Option.ite_none_right_eq_some, Option.some.injEq, Json.int.injEq]
    constructor
    · rintro ⟨range, rfl⟩
      exact ⟨rfl, range⟩
    · rintro ⟨rfl, range⟩
      exact ⟨range, rfl⟩
  | _ => simp [asInt?]

theorem Json.asString?_eq_some_iff {v : Json} {s : String} : v.asString? = some s ↔ v = .str s := by
  cases v <;> simp [asString?]

theorem Json.int64?_eq_some_iff {v : Json} {i : Int} :
    v.int64? = some i ↔ v = .int i ∧ Message.Signed (2 ^ 63) i :=
  Json.asInt?_eq_some_iff

theorem Json.int32?_eq_some_iff {v : Json} {i : Int} :
    v.int32? = some i ↔ v = .int i ∧ Message.Signed (2 ^ 31) i :=
  Json.asInt?_eq_some_iff

namespace RpcError

/-- What a value stands for as an error object: an object with a code of 32 bits and a message,
or an array of these in order.  Data may be left out, and null data are none. -/
inductive Decodes : Json → RpcError → Prop
  | named {members : Json.Members} {code : Int} {message : String}
      (hasCode : Entries.find? "code" members = some (.int code))
      (range : Message.Signed (2 ^ 31) code)
      (hasMessage : Entries.find? "message" members = some (.str message)) :
      Decodes (.obj members)
        ⟨code, message, (Entries.find? "data" members).filter fun d => !d.isNull⟩
  | listed {code : Int} {message : String} (range : Message.Signed (2 ^ 31) code)
      (data : Option Json) :
      Decodes (.arr (.int code :: .str message :: data.toList))
        ⟨code, message, data.filter fun d => !d.isNull⟩

/-- An error object is read exactly from what stands for it. -/
theorem ofJson?_eq_some_iff {v : Json} {e : RpcError} : ofJson? v = some e ↔ Decodes v e := by
  constructor
  · intro h
    simp only [ofJson?, Option.bind_eq_bind, Option.bind_eq_some_iff, Json.Record.required,
      Json.Record.optional_some, Json.int32?_eq_some_iff, Json.asString?_eq_some_iff,
      Option.pure_def, Option.some.injEq] at h
    obtain ⟨r, record, code, ⟨_, hasCode, rfl, range⟩, message, ⟨_, hasMessage, rfl⟩, _, rfl,
      rfl⟩ := h
    cases v with
    | obj members =>
      obtain rfl := Option.some.inj record
      exact .named hasCode range hasMessage
    | arr items =>
      obtain ⟨most, same⟩ := Option.ite_none_right_eq_some.mp record
      obtain rfl := Option.some.inj same
      rcases items with _ | ⟨first, _ | ⟨second, _ | ⟨data, _ | ⟨more, others⟩⟩⟩⟩
      · cases hasCode
      · cases hasMessage
      · obtain rfl := Option.some.inj hasCode
        obtain rfl := Option.some.inj hasMessage
        exact .listed range none
      · obtain rfl := Option.some.inj hasCode
        obtain rfl := Option.some.inj hasMessage
        exact .listed range (some data)
      · simp only [List.length_cons] at most
        omega
    | _ => cases record
  · rintro (⟨hasCode, range, hasMessage⟩ | ⟨range, data⟩)
    · simp [ofJson?, Json.record?, Json.Record.required, Json.Record.get?, hasCode, hasMessage,
        Json.Record.optional_some, Message.int32?_int range, Json.asString?]
    · cases data <;> simp [ofJson?, Json.record?, Json.Record.required, Json.Record.get?,
        Json.Record.optional_some, Message.int32?_int range, Json.asString?]

end RpcError

/-! ## The members that count -/

/-- The members that a message is read from. -/
structure Envelope where
  id : Option Json
  method : Option Json
  params : Option Json
  result : Option Json
  error : Option Json

namespace Envelope

/-- The value of the last member with a key, among members as they are written. -/
def last? (key : String) (members : List (String × Json)) : Option Json :=
  (Entries.find? key members.reverse).map Json.tidy

/-- The envelope that members are, in the order in which they are written. -/
def ofMembers (members : List (String × Json)) : Envelope where
  id := last? "id" members
  method := last? "method" members
  params := last? "params" members
  result := last? "result" members
  error := last? "error" members

/-- Whether a member is left out or null. -/
def Blank (o : Option Json) : Prop := o = none ∨ o = some .null

/-- What message an envelope is. -/
inductive Means (e : Envelope) : Message → Prop
  | request {id : Int} {method : String} (hasId : e.id = some (.int id))
      (range : Message.Signed (2 ^ 63) id) (hasMethod : e.method = some (.str method)) :
      Means e (.request id method (e.params.getD .null))
  | notification {method : String} (noId : Blank e.id) (hasMethod : e.method = some (.str method)) :
      Means e (.notification method (e.params.getD .null))
  | result {id : Int} (hasId : e.id = some (.int id)) (range : Message.Signed (2 ^ 63) id)
      (noMethod : e.method = none) (noError : Blank e.error) :
      Means e (.response id (.ok (e.result.getD .null)))
  /-- An error that is given, also beside a result. -/
  | failure {id : Int} {v : Json} {error : RpcError} (hasId : e.id = some (.int id))
      (range : Message.Signed (2 ^ 63) id) (noMethod : e.method = none)
      (hasError : e.error = some v) (decodes : RpcError.Decodes v error) :
      Means e (.response id (.error error))

/-- What the members of an envelope have to be. -/
structure Acceptable (e : Envelope) : Prop where
  /-- The identifier is left out, null or an integer of 64 bits. -/
  id : Blank e.id ∨ ∃ i, e.id = some (.int i) ∧ Message.Signed (2 ^ 63) i
  /-- The method is left out or a string. -/
  method : e.method = none ∨ ∃ s, e.method = some (.str s)
  /-- There is an identifier or a method. -/
  addressed : ¬ Blank e.id ∨ e.method ≠ none
  /-- The error of a response is left out, null or an error object. -/
  error : ¬ Blank e.id → e.method = none →
    Blank e.error ∨ ∃ v error, e.error = some v ∧ RpcError.Decodes v error

theorem not_blank_some {v : Json} (other : v ≠ .null) : ¬ Blank (some v) := by
  simp [Blank, other]

/-- An envelope is acceptable exactly if it is a message. -/
theorem acceptable_iff {e : Envelope} : e.Acceptable ↔ ∃ m, e.Means m := by
  constructor
  · rintro ⟨id, method, addressed, error⟩
    rcases id with noId | ⟨i, hasId, range⟩
    · rcases method with noMethod | ⟨s, hasMethod⟩
      · exact absurd addressed (by simp [noId, noMethod])
      · exact ⟨_, .notification noId hasMethod⟩
    · rcases method with noMethod | ⟨s, hasMethod⟩
      · have given : ¬ Blank e.id := hasId ▸ not_blank_some (by simp)
        rcases error given noMethod with noError | ⟨v, _, hasError, decodes⟩
        · exact ⟨_, .result hasId range noMethod noError⟩
        · exact ⟨_, .failure hasId range noMethod hasError decodes⟩
      · exact ⟨_, .request hasId range hasMethod⟩
  · rintro ⟨m, means⟩
    cases means with
    | request hasId range hasMethod =>
      exact ⟨.inr ⟨_, hasId, range⟩, .inr ⟨_, hasMethod⟩, .inr (by simp [hasMethod]),
        fun _ noMethod => by simp [hasMethod] at noMethod⟩
    | notification noId hasMethod =>
      exact ⟨.inl noId, .inr ⟨_, hasMethod⟩, .inr (by simp [hasMethod]),
        fun _ noMethod => by simp [hasMethod] at noMethod⟩
    | result hasId range noMethod noError =>
      exact ⟨.inr ⟨_, hasId, range⟩, .inl noMethod, .inl (hasId ▸ not_blank_some (by simp)),
        fun _ _ => .inl noError⟩
    | failure hasId range noMethod hasError decodes =>
      exact ⟨.inr ⟨_, hasId, range⟩, .inl noMethod, .inl (hasId ▸ not_blank_some (by simp)),
        fun _ _ => .inr ⟨_, _, hasError, decodes⟩⟩

end Envelope

namespace Message

/-! ## Reading the members -/

/-- The envelope that a value is. -/
def envelope (v : Json) : Envelope where
  id := v.get? "id"
  method := v.get? "method"
  params := v.get? "params"
  result := v.get? "result"
  error := v.get? "error"

theorem envelope_tidy (members : List (String × Json)) :
    envelope (Json.tidy (.obj members)) = Envelope.ofMembers members := by
  simp [envelope, Envelope.ofMembers, Envelope.last?, Json.get?_tidy]

theorem id?_eq_ok_iff {v : Json} {id : Option Int} :
    id? v = .ok id ↔ Envelope.Blank (v.get? "id") ∧ id = none ∨
      ∃ i, v.get? "id" = some (.int i) ∧ Signed (2 ^ 63) i ∧ id = some i := by
  constructor
  · intro h
    unfold id? at h
    split at h
    · rename_i absent
      exact .inl ⟨.inl absent, (Except.ok.inj h).symm⟩
    · rename_i null
      exact .inl ⟨.inr null, (Except.ok.inj h).symm⟩
    · rename_i w _ given
      split at h
      · rename_i n number
        obtain ⟨rfl, range⟩ := Json.int64?_eq_some_iff.mp number
        exact .inr ⟨n, given, range, (Except.ok.inj h).symm⟩
      · cases h
  · rintro (⟨absent | null, rfl⟩ | ⟨i, given, range, rfl⟩)
    · simp [id?, absent]
    · simp [id?, null]
    · simp [id?, given, int64?_int range]

theorem methodMember?_eq_ok_iff {v : Json} {method : Option String} :
    methodMember? v = .ok method ↔ v.get? "method" = method.map .str := by
  unfold methodMember?
  cases v.get? "method" with
  | none => cases method <;> simp
  | some m => cases m <;> cases method <;> simp [Json.asString?]

theorem outcome?_eq_ok_iff {v : Json} {outcome : Except RpcError Json} :
    outcome? v = .ok outcome ↔
      Envelope.Blank (v.get? "error") ∧ outcome = .ok ((v.get? "result").getD .null) ∨
        ∃ w e, v.get? "error" = some w ∧ RpcError.Decodes w e ∧ outcome = .error e := by
  constructor
  · intro h
    unfold outcome? at h
    split at h
    · rename_i absent
      exact .inl ⟨.inl absent, (Except.ok.inj h).symm⟩
    · rename_i null
      exact .inl ⟨.inr null, (Except.ok.inj h).symm⟩
    · rename_i w _ given
      split at h
      · rename_i e decoded
        exact .inr ⟨w, e, given, RpcError.ofJson?_eq_some_iff.mp decoded, (Except.ok.inj h).symm⟩
      · cases h
  · rintro (⟨absent | null, rfl⟩ | ⟨w, e, given, decodes, rfl⟩)
    · simp [outcome?, absent]
    · simp [outcome?, null]
    · -- No error object is null.
      have decoded := RpcError.ofJson?_eq_some_iff.mpr decodes
      cases decodes <;> simp [outcome?, given, decoded]

/-- A value is a message exactly if it is an object whose envelope is that message. -/
theorem ofJson?_eq_ok_iff {v : Json} {m : Message} :
    ofJson? v = .ok m ↔ v.isObject = true ∧ (envelope v).Means m := by
  constructor
  · intro h
    have object : v.isObject = true := by
      by_contra other
      rw [ofJson?, if_neg other] at h
      cases h
    refine ⟨object, ?_⟩
    cases hid : id? v with
    | error f => simp [ofJson?, object, hid, bind, Except.bind] at h
    | ok id =>
      cases hmethod : methodMember? v with
      | error f => simp [ofJson?, object, hid, hmethod, bind, Except.bind] at h
      | ok method =>
        rw [ofJson?_object object hid hmethod] at h
        have given := methodMember?_eq_ok_iff.mp hmethod
        rcases id?_eq_ok_iff.mp hid with ⟨noId, rfl⟩ | ⟨i, hasId, range, rfl⟩
        · cases method with
          | none => cases h
          | some method =>
            obtain rfl := Except.ok.inj h
            exact .notification noId given
        · cases method with
          | some method =>
            obtain rfl := Except.ok.inj h
            exact .request hasId range given
          | none =>
            cases houtcome : outcome? v with
            | error f => simp [houtcome, Except.map] at h
            | ok outcome =>
              obtain rfl : response i outcome = m := by simpa [houtcome, Except.map] using h
              rcases outcome?_eq_ok_iff.mp houtcome with
                ⟨noError, rfl⟩ | ⟨w, e, hasError, decodes, rfl⟩
              · exact .result hasId range given noError
              · exact .failure hasId range given hasError decodes
  · rintro ⟨object, means⟩
    cases means with
    | @request id method hasId range hasMethod =>
      have given : methodMember? v = .ok (some method) := methodMember?_eq_ok_iff.mpr hasMethod
      exact ofJson?_object object (id?_eq_ok_iff.mpr (.inr ⟨id, hasId, range, rfl⟩)) given
    | @notification method noId hasMethod =>
      have given : methodMember? v = .ok (some method) := methodMember?_eq_ok_iff.mpr hasMethod
      exact ofJson?_object object (id?_eq_ok_iff.mpr (.inl ⟨noId, rfl⟩)) given
    | @result id hasId range noMethod noError =>
      have given : methodMember? v = .ok none := methodMember?_eq_ok_iff.mpr noMethod
      rw [ofJson?_object object (id?_eq_ok_iff.mpr (.inr ⟨id, hasId, range, rfl⟩)) given,
        outcome?_eq_ok_iff.mpr (.inl ⟨noError, rfl⟩)]
      rfl
    | @failure id w e hasId range noMethod hasError decodes =>
      have given : methodMember? v = .ok none := methodMember?_eq_ok_iff.mpr noMethod
      rw [ofJson?_object object (id?_eq_ok_iff.mpr (.inr ⟨id, hasId, range, rfl⟩)) given,
        outcome?_eq_ok_iff.mpr (.inr ⟨w, e, hasError, decodes, rfl⟩)]
      rfl

/-- What an object is read as depends on its envelope only, the fault of a refusal included. -/
theorem ofJson?_congr {v w : Json} (hv : v.isObject = true) (hw : w.isObject = true)
    (same : envelope v = envelope w) : ofJson? v = ofJson? w := by
  obtain ⟨id, method, params, result, error⟩ := Envelope.mk.inj same
  simp only [ofJson?, id?, methodMember?, outcome?, hv, hw, id, method, params, result, error]

/-! ## Reading a body -/

/-- Whether a body is an object in strict JSON that is not nested too deeply, with these members
as they are written. -/
def Strict (body : Bytes) (members : List (String × Json)) : Prop :=
  Json.Denotes body (.obj members) ∧ (Json.obj members).depth ≤ Json.nestingLimit

theorem Strict.readBytes {body : Bytes} {members : List (String × Json)}
    (strict : Strict body members) :
    Json.readBytes? body = some (Json.tidy (.obj members)) :=
  Json.readBytes?_eq_some_iff.mpr ⟨_, strict.1, strict.2, rfl⟩

theorem Strict.parse {body : Bytes} {members : List (String × Json)}
    (strict : Strict body members) : parse? body = ofJson? (Json.tidy (.obj members)) := by
  rw [parse?, strict.readBytes]

/-- A body is a message exactly if it is an object whose envelope is that message. -/
theorem parse?_eq_ok_iff {body : Bytes} {m : Message} :
    parse? body = .ok m ↔
      ∃ members, Strict body members ∧ (Envelope.ofMembers members).Means m := by
  constructor
  · intro h
    cases read : Json.readBytes? body with
    | none => simp [parse?, read] at h
    | some v =>
      obtain ⟨w, denotes, shallow, rfl⟩ := Json.readBytes?_eq_some_iff.mp read
      rw [parse?, read] at h
      obtain ⟨object, means⟩ := ofJson?_eq_ok_iff.mp h
      cases w with
      | obj members =>
        rw [envelope_tidy] at means
        exact ⟨members, ⟨denotes, shallow⟩, means⟩
      | _ => cases object
  · rintro ⟨members, strict, means⟩
    rw [strict.parse, ofJson?_eq_ok_iff, envelope_tidy]
    exact ⟨rfl, means⟩

/-! ## Bodies in a stream -/

/-- The outcome of a frame comes before those of what follows it, whatever its body is. -/
theorem outcomes_of_frame {bytes body rest : Bytes} (frame : Frame.scan bytes = .frame body rest) :
    outcomes bytes = (parse? body :: (outcomes rest).1, (outcomes rest).2) := by
  rw [outcomes_eq, outcomes_eq, Frame.drain_of_frame frame]
  rfl

end Message

namespace Reader

/-- The bytes that complete a frame bring the outcome of its body and leave the reader where it
was at the start. -/
theorem feed_of_frame {r : Reader} {bytes body : Bytes} (reading : r.stopped = false)
    (frame : Frame.scan (r.unread ++ bytes) = .frame body []) :
    r.feed bytes = (.start, ⟨[Message.parse? body], none⟩) := by
  have last : Frame.drain [] = ([], .ok []) := Frame.drain_of_incomplete rfl
  simp [feed, reading, Frame.drain_of_frame frame, last, start]

end Reader

namespace Session

variable {s : Session} {bytes body : Bytes}

/-- A body that is no message is reported and dropped, and nothing else changes, even once the
dispatcher has ended. -/
theorem serverWrites_refused {f : Message.Fault} (reading : s.reader.stopped = false)
    (frame : Frame.scan (s.reader.unread ++ bytes) = .frame body [])
    (refused : Message.parse? body = .error f) :
    s.step (.serverWrites bytes) = ({ s with reader := .start },
      [.logged (.warn ("dropping malformed message: " ++ f.message))]) := by
  have fed := Reader.feed_of_frame reading frame
  rw [refused] at fed
  simp [step, serverWrites, fed, usable, message?, remark?]

/-- A message is handed to the dispatcher while that runs. -/
theorem serverWrites_taken {m : Message} (reading : s.reader.stopped = false)
    (running : s.stopped = false) (frame : Frame.scan (s.reader.unread ++ bytes) = .frame body [])
    (taken : Message.parse? body = .ok m) :
    s.step (.serverWrites bytes) =
      ({ s with reader := .start, inbound := s.inbound ++ [m] }, []) := by
  have fed := Reader.feed_of_frame reading frame
  rw [taken] at fed
  simp [step, serverWrites, fed, usable, running, message?, remark?]

end Session

namespace Message

/-! ## Exactly the envelopes -/

/-- A body is read as a message exactly if it is an object in strict JSON with an acceptable
envelope, and it is the message that the envelope means.  Nothing but the envelope counts, that
is the last members with the five keys.  Whatever a body is, reading goes on behind its frame: a
body that is refused is reported and dropped, and a message is handed on while someone takes
it. -/
theorem parses_exactly_envelopes (body : Bytes) :
    ((∃ m, parse? body = .ok m) ↔
      ∃ members, Strict body members ∧ (Envelope.ofMembers members).Acceptable) ∧
    (∀ m, parse? body = .ok m ↔
      ∃ members, Strict body members ∧ (Envelope.ofMembers members).Means m) ∧
    (∀ other members members', Strict body members → Strict other members' →
      Envelope.ofMembers members = Envelope.ofMembers members' → parse? body = parse? other) ∧
    (∀ bytes rest, Frame.scan bytes = .frame body rest →
      outcomes bytes = (parse? body :: (outcomes rest).1, (outcomes rest).2)) ∧
    (∀ (s : Session) bytes, s.reader.stopped = false →
      Frame.scan (s.reader.unread ++ bytes) = .frame body [] →
      (∀ f, parse? body = .error f →
        s.step (.serverWrites bytes) = ({ s with reader := .start },
          [.logged (.warn ("dropping malformed message: " ++ f.message))])) ∧
      (∀ m, parse? body = .ok m → s.stopped = false →
        s.step (.serverWrites bytes) =
          ({ s with reader := .start, inbound := s.inbound ++ [m] }, []))) := by
  refine ⟨?_, fun m => parse?_eq_ok_iff, fun other members members' hbody hother same => ?_,
    fun bytes rest => outcomes_of_frame, fun s bytes reading frame =>
      ⟨fun f refused => Session.serverWrites_refused reading frame refused,
        fun m taken running => Session.serverWrites_taken reading running frame taken⟩⟩
  · simp only [Envelope.acceptable_iff, parse?_eq_ok_iff]
    exact ⟨fun ⟨m, members, strict, means⟩ => ⟨members, strict, m, means⟩,
      fun ⟨members, strict, m, means⟩ => ⟨m, members, strict, means⟩⟩
  · rw [hbody.parse, hother.parse]
    refine ofJson?_congr rfl rfl ?_
    rw [envelope_tidy, envelope_tidy, same]

/-- Of each key the last member counts, an error wins over a result, and its array form may have
null data; a method that is null is no method. -/
theorem parses_exactly_envelopes_last :
    let body := Utf8.encode
      "\x7b\"id\":\"a\",\"result\":7,\"error\":[-32601,\"no\",null],\"id\":-9223372036854775808\x7d"
    let other := Utf8.encode "\x7b\"id\":null,\"method\":null\x7d"
    (∃ members, Strict body members ∧
      (Envelope.ofMembers members).Means (.response (-(2 ^ 63)) (.error ⟨-32601, "no", none⟩))) ∧
    (¬ ∃ members, Strict other members ∧ (Envelope.ofMembers members).Acceptable) ∧
    outcomes (Frame.encode other ++ Frame.encode body) =
      ([.error .badMethod, .ok (.response (-(2 ^ 63)) (.error ⟨-32601, "no", none⟩))], none) := by
  intro body other
  have taken : parse? body = .ok (.response (-(2 ^ 63)) (.error ⟨-32601, "no", none⟩)) := by
    decide +kernel
  have refused : parse? other = .error .badMethod := by decide +kernel
  refine ⟨((parses_exactly_envelopes body).2.1 _).mp taken, fun acceptable => ?_, ?_⟩
  · obtain ⟨m, read⟩ := (parses_exactly_envelopes other).1.mpr acceptable
    rw [refused] at read
    cases read
  · have small : other.length ≤ Frame.maxBody ∧ body.length ≤ Frame.maxBody := by decide +kernel
    have first := Frame.scan_encode_append small.1 (Frame.encode body)
    have second := Frame.scan_encode_append small.2 []
    rw [List.append_nil] at second
    rw [(parses_exactly_envelopes other).2.2.2.1 _ _ first,
      (parses_exactly_envelopes body).2.2.2.1 _ _ second, outcomes_nil, taken, refused]

end Message

end LanguageClient
