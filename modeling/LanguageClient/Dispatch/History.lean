import LanguageClient.Dispatch.Dispatcher

/-!
# Histories of a dispatcher

A history is a list of operations on one dispatcher, including what happens around
it: a caller that stops waiting for its request, and an environment that stops
taking frames.  Replaying a history gives one entry per operation.
-/

set_option autoImplicit false

namespace LanguageClient.Dispatcher

variable {H : Type}

/-- An operation on a dispatcher or of its surroundings. -/
inductive Op (H : Type) where
  | request (method : String) (params : Json)
  | notify (method : String) (params : Json)
  | subscribe (method : String) (handler : H)
  | receive (message : Message)
  | cancel (id : Int)
  | close
  | failAll
  /-- Nobody takes outgoing frames any more. -/
  | dropWriter
  /-- The caller of a request stops waiting for it. -/
  | forget (id : Int)
  deriving DecidableEq, Repr

/-- The answer to an operation. -/
inductive Reply where
  /-- A request was sent under this number. -/
  | issued (id : Int)
  | done
  | refused (error : ClientError)
  | routed (route : Routed)
  | flag (value : Bool)
  deriving DecidableEq, Repr

/-- A dispatcher together with the callers that wait. -/
structure Attended (H : Type) where
  dispatcher : Dispatcher H
  /-- The numbers of the requests for which a caller waits. -/
  awaited : List Int
  deriving DecidableEq, Repr

/-- What one operation of a history gave. -/
structure Entry (H : Type) where
  reply : Reply
  effects : List (Effect H)
  deriving DecidableEq, Repr

namespace Attended

/-- The start of every history. -/
def start : Attended H := ⟨.empty, []⟩

/-- The requests that a list of effects completes. -/
def completedIds (effects : List (Effect H)) : List Int :=
  effects.filterMap fun
    | .completed id _ => some id
    | _ => none

/-- The completions among effects that reach a waiting caller. -/
def delivered (s : Attended H) (effects : List (Effect H)) : List (Int × Completion) :=
  effects.filterMap fun
    | .completed id completion => if id ∈ s.awaited then some (id, completion) else none
    | _ => none

/-- The state after an operation whose outcome is `o`. -/
def advance {α : Type} (s : Attended H) (o : Outcome H α) (reply : Reply) :
    Attended H × Entry H :=
  (⟨o.next, s.awaited.filter (· ∉ completedIds o.effects)⟩, ⟨reply, o.effects⟩)

/-- One operation. -/
def step (s : Attended H) : Op H → Attended H × Entry H
  | .request method params =>
    let o := s.dispatcher.request method params
    match o.result with
    | .ok id => advance { s with awaited := s.awaited ++ [id] } o (.issued id)
    | .error e => advance s o (.refused e)
  | .notify method params =>
    let o := s.dispatcher.notify method params
    advance s o (match o.result with | .ok () => .done | .error e => .refused e)
  | .subscribe method handler =>
    let o := s.dispatcher.subscribe method handler
    advance s o (match o.result with | .ok () => .done | .error e => .refused e)
  | .receive message =>
    let o := s.dispatcher.receive message
    advance s o (.routed o.result)
  | .cancel id =>
    let o := s.dispatcher.cancel id
    advance s o (.flag o.result)
  | .close => advance s s.dispatcher.close .done
  | .failAll => advance s s.dispatcher.failAll .done
  | .dropWriter => (⟨s.dispatcher.dropWriter, s.awaited⟩, ⟨.done, []⟩)
  | .forget id =>
    ({ s with awaited := s.awaited.filter (· ≠ id) }, ⟨.flag (id ∈ s.awaited), []⟩)

/-- The state after a history. -/
def run (s : Attended H) (ops : List (Op H)) : Attended H :=
  ops.foldl (fun s op => (s.step op).1) s

/-- The entries of a history. -/
def entries (s : Attended H) : List (Op H) → List (Entry H)
  | [] => []
  | op :: ops => (s.step op).2 :: entries (s.step op).1 ops

end Attended

end LanguageClient.Dispatcher
