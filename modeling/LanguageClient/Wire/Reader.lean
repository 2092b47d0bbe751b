import LanguageClient.Wire.Message

/-!
# Reading a stream piece by piece

A reader takes the bytes of a stream as they come and gives out what they hold: the
messages and the faults of their frames, in order, as reading all the bytes at once
would.  It stops for good at a fault of the framing.
-/

set_option autoImplicit false

namespace LanguageClient

/-- A reader between two pieces of a stream. -/
structure Reader where
  /-- The bytes of a frame that is still incomplete. -/
  unread : Bytes
  /-- Whether nothing is read any more. -/
  stopped : Bool
  deriving DecidableEq, Repr

namespace Reader

/-- A reader at the start of a stream. -/
def start : Reader := ⟨[], false⟩

/-- Stops the reader. -/
def stop (r : Reader) : Reader := { r with stopped := true }

/-- What a piece of the stream brings. -/
structure Found where
  /-- The outcomes of the frames that the piece completes. -/
  outcomes : List (Except Message.Fault Message)
  /-- The fault that stops the reader. -/
  fault : Option Frame.Fault
  deriving DecidableEq

/-- Takes a piece of the stream. -/
def feed (r : Reader) (bytes : Bytes) : Reader × Found :=
  if r.stopped then (r, ⟨[], none⟩)
  else
    let (bodies, rest) := Frame.drain (r.unread ++ bytes)
    let found := bodies.map Message.parse?
    match rest with
    | .ok unread => (⟨unread, false⟩, ⟨found, none⟩)
    | .error f => (⟨[], true⟩, ⟨found, some f⟩)

end Reader

end LanguageClient
