/-!
# The phases of a session

A session passes from its launch through the handshake to its end.
-/

set_option autoImplicit false

namespace LanguageClient

/-- Where a session with a server stands. -/
inductive Phase where
  /-- The server runs and has not answered the handshake. -/
  | launched
  /-- The handshake is done; documents may be opened and closed. -/
  | initialized
  /-- The server has agreed to shut down. -/
  | shuttingDown
  /-- The server is gone. -/
  | exited
  deriving DecidableEq, Repr

/-- The name of a phase. -/
def Phase.name : Phase → String
  | .launched => "Launched"
  | .initialized => "Initialized"
  | .shuttingDown => "ShuttingDown"
  | .exited => "Exited"

end LanguageClient
