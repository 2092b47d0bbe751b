import LanguageClient.Files.IoError
import LanguageClient.Session.Phase

/-!
# Failures of client operations

What can go wrong between a client and a language server, and the text shown for it.
-/

set_option autoImplicit false

namespace LanguageClient

/-- A failure of an operation on a server, a session or a workspace. -/
inductive ClientError where
  /-- The program of a server did not start. -/
  | spawnFailed (detail : String)
  /-- The handshake was refused. -/
  | initFailed (detail : String)
  /-- The server answered a request with an error object. -/
  | rpc (code : Int) (message : String)
  /-- A request was not answered in time. -/
  | timeout (method : String) (seconds : Nat)
  /-- The session ended while the operation was outstanding. -/
  | sessionTerminated
  /-- A value does not have the expected form. -/
  | serialization (detail : String)
  /-- An input or output operation failed. -/
  | io (error : IoError)
  /-- No server is known for a language. -/
  | noServer (language : String)
  /-- A notification method has a handler already. -/
  | handlerExists (method : String)
  /-- The byte stream breaks the framing rules. -/
  | framing (detail : String)
  /-- A framed body is not an acceptable message. -/
  | protocol (detail : String)
  /-- The operation is not allowed in the phase of the session. -/
  | invalidState (operation : String) (phase : Phase)
  /-- A path cannot be written as a URI. -/
  | invalidUri (path : String)
  deriving DecidableEq, Repr

/-- The text shown for a failure. -/
def ClientError.message : ClientError → String
  | .spawnFailed detail => "server failed to start: " ++ detail
  | .initFailed detail => "server initialization failed: " ++ detail
  | .rpc code message => "JSON-RPC error " ++ toString code ++ ": " ++ message
  | .timeout method seconds =>
    "request '" ++ method ++ "' timed out after " ++ toString seconds ++ " seconds"
  | .sessionTerminated => "language server session terminated"
  | .serialization detail => "serialization error: " ++ detail
  | .io error => "I/O error: " ++ error.message
  | .noServer language => "no server registered for language: " ++ language
  | .handlerExists method => "notification handler already registered for: " ++ method
  | .framing detail => "framing error: " ++ detail
  | .protocol detail => "protocol error: " ++ detail
  | .invalidState operation phase =>
    operation ++ " not allowed while session is " ++ phase.name
  | .invalidUri path => "invalid document path: " ++ path

end LanguageClient
