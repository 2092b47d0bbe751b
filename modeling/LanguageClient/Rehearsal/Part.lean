import LanguageClient.Session.Step

/-!
# Parts

A part is the script of a server in a rehearsal: for each method it says how the server
answers, which messages it sends then, and whether it falls silent for good.
-/

set_option autoImplicit false

namespace LanguageClient

/-- What a server does when it receives a message of some method. -/
structure Cue where
  /-- The answer to a request. -/
  answer : Option (Except RpcError Json)
  /-- The messages that are sent after it. -/
  messages : List Message
  /-- Whether the server then closes its output. -/
  closes : Bool
  deriving DecidableEq

/-- The cues of a server by method. -/
abbrev Part := Entries Cue

namespace Cue

/-- A value in which the texts of two places stand for the document that a received
message is about. -/
def fill (document : Json) : Json → Json
  | .str s =>
    if s = "$uri" then (document.get? "uri").getD .null
    else if s = "$version" then (document.get? "version").getD .null
    else .str s
  | .arr xs => .arr (fillAll xs)
  | .obj ms => .obj (fillMembers ms)
  | v => v
where
  /-- Fills every value. -/
  fillAll : List Json → List Json
    | [] => []
    | x :: xs => fill document x :: fillAll xs
  /-- Fills every member. -/
  fillMembers : List (String × Json) → List (String × Json)
    | [] => []
    | (k, x) :: ms => (k, fill document x) :: fillMembers ms

/-- Fills the values of a message. -/
def fillMessage (document : Json) : Message → Message
  | .request id method params => .request id method (fill document params)
  | .notification method params => .notification method (fill document params)
  | .response id (.ok result) => .response id (.ok (fill document result))
  | .response id (.error e) => .response id (.error { e with data := e.data.map (fill document) })

/-- The document that parameters are about. -/
def documentOf (params : Json) : Json := (params.get? "textDocument").getD .null

/-- What a server does on a cue. -/
def play (cue : Cue) (received : Message) : List Session.Action :=
  let write (m : Message) : Session.Action := .serverWrites m.encode
  let (answers, document) : List Session.Action × Json :=
    match received with
    | .request id _ params =>
      (cue.answer.toList.map fun a => write (.response id a), documentOf params)
    | .notification _ params => ([], documentOf params)
    | .response .. => ([], .null)
  answers ++ cue.messages.map (fun m => write (fillMessage document m)) ++
    (if cue.closes then [.serverCloses] else [])

end Cue

/-- What a server does when it receives a message. -/
def Part.play (part : Part) (received : Message) : List Session.Action :=
  match received.method?.bind part.find? with
  | some cue => cue.play received
  | none => []

end LanguageClient
