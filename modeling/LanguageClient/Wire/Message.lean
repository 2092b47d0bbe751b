import LanguageClient.Json.Parser
import LanguageClient.Json.Printer
import LanguageClient.Json.Record
import LanguageClient.Outcome
import LanguageClient.Wire.Frame

/-!
# Messages

A message is a request, a response or a notification.  Its JSON object leaves out
null parameters, and a response has exactly one of a result and an error.
-/

set_option autoImplicit false

namespace LanguageClient

/-- The error object of a response. -/
structure RpcError where
  code : Int
  message : String
  data : Option Json
  deriving DecidableEq, Repr

namespace RpcError

/-- An error object as JSON. -/
def toJson (e : RpcError) : Json :=
  Json.ofPresent [("code", some (.int e.code)), ("message", some (.str e.message)),
    ("data", e.data)]

/-- The error object that a value is. -/
def ofJson? (v : Json) : Option RpcError := do
  let r ← v.record? 3
  let code ← r.required 0 "code" Json.int32?
  let message ← r.required 1 "message" Json.asString?
  let data ← r.optional 2 "data" some
  return { code, message, data }

end RpcError

/-- A message between client and server; absent parameters are null. -/
inductive Message where
  | request (id : Int) (method : String) (params : Json)
  | response (id : Int) (outcome : Except RpcError Json)
  | notification (method : String) (params : Json)
  deriving DecidableEq, Repr

namespace Message

/-- The method of a request or notification. -/
def method? : Message → Option String
  | .request _ method _ | .notification method _ => some method
  | .response .. => none

/-- The member for parameters, left out when they are null. -/
def paramsMember (params : Json) : Option Json :=
  if params.isNull then none else some params

/-- A message as a JSON object. -/
def toJson : Message → Json
  | .request id method params =>
    Json.ofPresent [("jsonrpc", some (.str "2.0")), ("id", some (.int id)),
      ("method", some (.str method)), ("params", paramsMember params)]
  | .response id (.ok result) =>
    Json.ofPresent [("jsonrpc", some (.str "2.0")), ("id", some (.int id)),
      ("result", some result)]
  | .response id (.error e) =>
    Json.ofPresent [("jsonrpc", some (.str "2.0")), ("id", some (.int id)),
      ("error", some e.toJson)]
  | .notification method params =>
    Json.ofPresent [("jsonrpc", some (.str "2.0")), ("method", some (.str method)),
      ("params", paramsMember params)]

/-- The body of a message. -/
def body (m : Message) : Bytes := Utf8.encode m.toJson.text

/-- The frame of a message. -/
def encode (m : Message) : Bytes := Frame.encode m.body

/-- Why a body is not a message. -/
inductive Fault where
  | invalidJson
  | notObject
  | badId (id : Json)
  | badMethod
  | malformedError
  | unaddressed
  deriving DecidableEq, Repr

/-- The text of a fault. -/
def Fault.message : Fault → String
  | .invalidJson => "invalid JSON"
  | .notObject => "message is not a JSON object"
  | .badId id => "id must be an integer, got " ++ id.text
  | .badMethod => "method must be a string"
  | .malformedError => "malformed error object"
  | .unaddressed => "message has neither id nor method"

/-- The identifier among the members; null counts as none. -/
def id? (v : Json) : Except Fault (Option Int) :=
  match v.get? "id" with
  | none | some .null => .ok none
  | some id =>
    match Json.int64? id with
    | some n => .ok (some n)
    | none => .error (.badId id)

/-- The method among the members. -/
def methodMember? (v : Json) : Except Fault (Option String) :=
  match v.get? "method" with
  | none => .ok none
  | some m =>
    match m.asString? with
    | some s => .ok (some s)
    | none => .error .badMethod

/-- The outcome that a response states: an error that is not null wins over a result. -/
def outcome? (v : Json) : Except Fault (Except RpcError Json) :=
  match v.get? "error" with
  | none | some .null => .ok (.ok ((v.get? "result").getD .null))
  | some e =>
    match RpcError.ofJson? e with
    | some e => .ok (.error e)
    | none => .error .malformedError

/-- The message that a JSON value is. -/
def ofJson? (v : Json) : Except Fault Message :=
  if v.isObject then do
    let id ← id? v
    let method ← methodMember? v
    let params := (v.get? "params").getD .null
    match id, method with
    | some id, some method => .ok (.request id method params)
    | some id, none => (outcome? v).map (.response id)
    | none, some method => .ok (.notification method params)
    | none, none => .error .unaddressed
  else .error .notObject

/-- The message of a body. -/
def parse? (body : Bytes) : Except Fault Message :=
  match Json.readBytes? body with
  | none => .error .invalidJson
  | some v => ofJson? v

end Message

/-- What a byte stream holds: for each frame its message or its fault, and the
framing fault that stopped the reading, if it was not the end of the stream. -/
def outcomes (bytes : Bytes) : List (Except Message.Fault Message) × Option Frame.Fault :=
  let (bodies, stop) := Frame.split bytes
  (bodies.map Message.parse?, stop)

end LanguageClient
