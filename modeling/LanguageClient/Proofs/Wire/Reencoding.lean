import LanguageClient.Proofs.Wire.Envelopes

/-!
# Messages that were read

What a message that was read holds comes from its body: the members of its objects are in order,
its numbers are integers if those of the body are, data of an error are never null, and nothing is
nested deeper than in the body.  So writing it and reading it again changes nothing.
-/

set_option autoImplicit false

namespace LanguageClient

/-- An object is one deeper at most than its deepest value. -/
theorem Json.depth_ofPresent_le {members : List (String × Option Json)} {n : Nat}
    (h : ∀ o ∈ members.map Prod.snd, ∀ v ∈ o, v.depth ≤ n) :
    (Json.ofPresent members).depth ≤ n + 1 := by
  refine Nat.succ_le_succ (Json.depthMembers_le_iff.mpr fun e he => ?_)
  exact h _ (List.mem_map_of_mem (Json.mem_ofList_present he)) e.2 rfl

namespace RpcError

theorem depth_toJson_le {e : RpcError} {n : Nat} (data : ∀ d, e.data = some d → d.depth ≤ n) :
    e.toJson.depth ≤ n + 1 :=
  Json.depth_ofPresent_le (by simpa [Json.depth] using data)

/-- The data of an error object stand inside the value it was read from. -/
theorem Decodes.data {v : Json} {e : RpcError} (decodes : Decodes v e) :
    ∃ n, v.depth = n + 1 ∧
      ∀ d, e.data = some d → d ≠ .null ∧ (v.Plain → d.Plain) ∧ d.depth ≤ n := by
  have known : ∀ {o : Option Json} {d : Json}, (o.filter fun d => !d.isNull) = some d →
      o = some d ∧ d ≠ .null := by
    intro o d given
    obtain ⟨held, some⟩ := Option.filter_eq_some_iff.mp given
    refine ⟨held, ?_⟩
    rintro rfl
    cases some
  cases decodes with
  | @named members code message =>
    refine ⟨_, rfl, fun d given => ?_⟩
    obtain ⟨held, other⟩ := known given
    have member := Entries.mem_of_find? held
    exact ⟨other, fun plain => ⟨Json.orderedMembers_iff.mp plain.1.2 _ member,
      Json.integralMembers_iff.mp plain.2 _ member⟩,
      Json.depthMembers_le_iff.mp (Nat.le_refl _) _ member⟩
  | @listed code message range data =>
    refine ⟨_, rfl, fun d given => ?_⟩
    obtain ⟨rfl, other⟩ := known given
    refine ⟨other, fun plain => ⟨plain.1.2.2.1, plain.2.2.2.1⟩, ?_⟩
    simp [Json.depthItems]

theorem Decodes.code {v : Json} {e : RpcError} (decodes : Decodes v e) :
    Message.Signed (2 ^ 31) e.code := by
  cases decodes with
  | named _ range => exact range
  | listed range => exact range

end RpcError

namespace Envelope

/-- What a member that counts holds, of an object whose numbers are integers and that is not
nested too deeply. -/
theorem last?_kept {members : List (String × Json)} {key : String} {v : Json}
    (held : last? key members = some v) (integral : (Json.obj members).Integral) :
    v.Plain ∧ v.depth + 1 ≤ (Json.obj members).depth := by
  obtain ⟨w, found, rfl⟩ := Option.map_eq_some_iff.mp held
  have member := List.mem_reverse.mp (Entries.mem_of_find? found)
  have inside : w.depth ≤ Json.depthMembers members :=
    Json.depthMembers_le_iff.mp (Nat.le_refl _) _ member
  exact ⟨⟨Json.ordered_tidy w, Json.integral_tidy (Json.integralMembers_iff.mp integral _ member)⟩,
    Nat.succ_le_succ ((Json.depth_tidy_le w).trans inside)⟩

end Envelope

namespace Message

/-- The value that a message carries. -/
def payload : Message → Json
  | .request _ _ params | .notification _ params => params
  | .response _ (.ok result) => result
  | .response _ (.error e) => e.toJson

theorem depth_toJson_le {m : Message} {n : Nat} (h : m.payload.depth ≤ n) :
    m.toJson.depth ≤ n + 1 := by
  match m, h with
  | .request id method params, h | .notification method params, h =>
    have given : ∀ v, paramsMember params = some v → v.depth ≤ n :=
      fun v given => paramsMember_eq_some given ▸ h
    exact Json.depth_ofPresent_le (by simpa [Json.depth] using given)
  | .response id (.ok result), h | .response id (.error e), h =>
    exact Json.depth_ofPresent_le (by simpa [Json.depth, payload] using h)

/-- A message of an envelope fits, has no null data and is nested as deeply as the object at
most. -/
theorem kept_of_means {members : List (String × Json)} {m : Message}
    (means : (Envelope.ofMembers members).Means m) (integral : (Json.obj members).Integral) :
    m.Fits ∧ ¬ m.HasNullData ∧ m.toJson.depth ≤ (Json.obj members).depth := by
  obtain ⟨n, depth⟩ : ∃ n, (Json.obj members).depth = n + 1 := ⟨_, rfl⟩
  have kept : ∀ {key : String} {v : Json}, Envelope.last? key members = some v →
      v.Plain ∧ v.depth ≤ n := by
    intro key v held
    obtain ⟨plain, inside⟩ := Envelope.last?_kept held integral
    exact ⟨plain, by omega⟩
  -- A member that is left out reads as null.
  have optional : ∀ key : String, ((Envelope.last? key members).getD .null).Plain ∧
      ((Envelope.last? key members).getD .null).depth ≤ n := by
    intro key
    cases held : Envelope.last? key members with
    | none => exact ⟨⟨trivial, trivial⟩, Nat.zero_le n⟩
    | some v => exact kept held
  rw [depth]
  cases means with
  | request hasId range hasMethod =>
    obtain ⟨plain, inside⟩ := optional "params"
    exact ⟨⟨range, plain⟩, not_false, depth_toJson_le inside⟩
  | notification noId hasMethod =>
    obtain ⟨plain, inside⟩ := optional "params"
    exact ⟨plain, not_false, depth_toJson_le inside⟩
  | result hasId range noMethod noError =>
    obtain ⟨plain, inside⟩ := optional "result"
    exact ⟨⟨range, plain⟩, not_false, depth_toJson_le inside⟩
  | @failure id v e hasId range noMethod hasError decodes =>
    obtain ⟨plain, inside⟩ := kept hasError
    obtain ⟨k, depth, data⟩ := decodes.data
    have shallow := RpcError.depth_toJson_le fun d given => (data d given).2.2
    refine ⟨⟨range, decodes.code, fun d given => (data d given).2.1 plain⟩, ?_,
      depth_toJson_le (show e.toJson.depth ≤ n by omega)⟩
    exact fun null => (data _ null).1 rfl

/-! ## The fixed point -/

/-- A message that was read from a body whose numbers are integers of 64 bits is written within
the limit of nesting and read back as it was, data of an error included, and so writing what was
read back gives the same bytes. -/
theorem parse?_body_of_parse? {body : Bytes} {w : Json} {m : Message}
    (denotes : Json.Denotes body w) (integral : w.Integral) (accepted : parse? body = .ok m) :
    m.toJson.depth ≤ Json.nestingLimit ∧ parse? m.body = .ok m ∧
      (parse? m.body).map Message.body = .ok m.body := by
  obtain ⟨members, strict, means⟩ := parse?_eq_ok_iff.mp accepted
  obtain rfl := denotes.unique strict.1
  obtain ⟨fits, known, inside⟩ := kept_of_means means integral
  have shallow := inside.trans strict.2
  have again : parse? m.body = .ok m := by
    rw [parse?_body fits shallow, (received_eq_self_iff m).mpr known]
  refine ⟨shallow, again, ?_⟩
  rw [again]
  rfl

/-- An error given as an array, with an escape and with keys that are out of order and repeated,
beside a result and other members, is written as an object in order. -/
theorem parse?_body_of_parse?_listed :
    let text := "\x7b\"result\":0, \"id\":\"x\",\"error\":[-5,\"\\u00e9\",\x7b\"b\":1,\"a\":[]," ++
      "\"b\":18446744073709551615\x7d],\"more\":[null],\"id\":-7\x7d"
    let m : Message := .response (-7) (.error ⟨-5, "é", some (.obj
      [("a", .arr []), ("b", .int (2 ^ 64 - 1))])⟩)
    parse? (Utf8.encode text) = .ok m ∧ parse? m.body = .ok m ∧
      m.body = Utf8.encode ("\x7b\"error\":\x7b\"code\":-5,\"data\":\x7b\"a\":[]," ++
        "\"b\":18446744073709551615\x7d,\"message\":\"é\"\x7d,\"id\":-7,\"jsonrpc\":\"2.0\"\x7d") := by
  intro text m
  have denotes : Json.Denotes (Utf8.encode text) (.obj [("result", .int 0), ("id", .str "x"),
      ("error", .arr [.int (-5), .str "é", .obj [("b", .int 1), ("a", .arr []),
        ("b", .int (2 ^ 64 - 1))]]), ("more", .arr [.null]), ("id", .int (-7))]) :=
    ⟨text.toList, by rw [String.ofList_toList], Json.spells_of_tokens (by decide +kernel)⟩
  have integral : Json.Integral (.obj [("result", .int 0), ("id", .str "x"),
      ("error", .arr [.int (-5), .str "é", .obj [("b", .int 1), ("a", .arr []),
        ("b", .int (2 ^ 64 - 1))]]), ("more", .arr [.null]), ("id", .int (-7))]) := by
    simp [Json.Integral, Json.IntegralMembers, Json.IntegralItems]
  have accepted : parse? (Utf8.encode text) = .ok m := by decide +kernel
  refine ⟨accepted, (parse?_body_of_parse? denotes integral accepted).2.1, ?_⟩
  exact congrArg Utf8.encode (by decide +kernel)

end Message

end LanguageClient
