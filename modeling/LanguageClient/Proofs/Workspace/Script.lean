import LanguageClient.Proofs.Session.Course
import LanguageClient.Workspace.Lane

/-!
# The script of a lane

The messages that a lane has for its server, in the order in which the server is to get
them: the handshake, its announcement, the documents, each closed before the next one is
opened, and the end.  `InOrder` says that what a session has sent keeps to this order, with
the documents of a list of activations.
-/

set_option autoImplicit false

namespace LanguageClient

/-- The last of a list, or what there was before it. -/
def latest {α : Type} : Option α → List α → Option α :=
  List.foldl fun _ a => some a

theorem latest_map {α β : Type} (f : α → β) (before : Option α) (as : List α) :
    (latest before as).map f = latest (before.map f) (as.map f) := by
  induction as generalizing before with
  | nil => rfl
  | cons a as ih => exact ih (some a)

/-! ## Messages -/

namespace Message

/-- The request that begins the handshake. -/
def hello (greeting : InitializeParams) : Message := .request 1 "initialize" greeting.toJson

/-- The announcement that the handshake is complete. -/
def announced : Message := .notification "initialized" (.obj [])

/-- A document is opened. -/
def opened (d : Document) : Message :=
  .notification "textDocument/didOpen" (aboutDocument d.toJson)

/-- A document is closed. -/
def closed (uri : String) : Message :=
  .notification "textDocument/didClose" (aboutDocument (DocumentName.mk uri).toJson)

/-- The request to prepare for the end. -/
def bye : Message := .request 2 "shutdown" .null

/-- The order to exit. -/
def leave : Message := .notification "exit" .null

/-- The closing of the document that is open, if there is one. -/
def closing (current : Option String) : List Message := (current.map closed).toList

/-- The way from one document to the next, from the one that is open at first. -/
def switches : Option String → List Document → List Message
  | _, [] => []
  | current, d :: rest => closing current ++ opened d :: switches (some d.uri) rest

/-- The document that is open after some others have been opened. -/
def current (before : Option String) (documents : List Document) : Option String :=
  latest before (documents.map Document.uri)

/-- All that a server gets that has answered the handshake, before the end. -/
def script (greeting : InitializeParams) (documents : List Document) : List Message :=
  hello greeting :: announced :: switches none documents

variable {greeting : InitializeParams} {documents : List Document}

theorem switches_append (before : Option String) (ds es : List Document) :
    switches before (ds ++ es) = switches before ds ++ switches (current before ds) es := by
  induction ds generalizing before with
  | nil => rfl
  | cons d ds ih =>
    have rest := ih (some d.uri)
    simp only [List.cons_append, switches, rest, List.append_assoc]
    rfl

/-- One more document is one more switch. -/
theorem script_snoc (greeting : InitializeParams) (documents : List Document) (d : Document) :
    script greeting (documents ++ [d]) =
      script greeting documents ++ closing (current none documents) ++ [opened d] := by
  simp [script, switches_append, switches]

theorem countP_switches (before : Option String) (documents : List Document) :
    (switches before documents).countP isRequest = 0 := by
  induction documents generalizing before with
  | nil => rfl
  | cons d documents ih =>
    have rest := ih (some d.uri)
    cases before <;> simp [switches, closing, isRequest, opened, closed, rest]

/-- The request that follows the script is the second one. -/
theorem nextNumber_script : nextNumber (script greeting documents) = 2 := by
  simp [nextNumber, script, List.countP_cons, countP_switches, isRequest, hello, announced]

end Message

/-! ## Activations -/

namespace Lane

/-- The document that a step activates. -/
def Action.activated : Action → List (Path × String)
  | .activate path text => [(path, text)]
  | _ => []

/-- The documents that activations lead to: those that are active already do not count. -/
def visits : Option Path → List (Path × String) → List (Path × String)
  | _, [] => []
  | active, (path, text) :: rest =>
    if active.any (·.same path) then visits active rest
    else (path, text) :: visits (some path) rest

theorem visits_append (active : Option Path) (vs ws : List (Path × String)) :
    visits active (vs ++ ws) =
      visits active vs ++ visits (latest active ((visits active vs).map Prod.fst)) ws := by
  induction vs generalizing active with
  | nil => rfl
  | cons v vs ih =>
    obtain ⟨path, text⟩ := v
    rw [List.cons_append, visits, visits]
    split
    · exact ih active
    · rw [ih (some path), List.cons_append]
      rfl

theorem visits_extend (active : Option Path) (vs ws : List (Path × String)) :
    visits active vs <+: visits active (vs ++ ws) :=
  ⟨_, (visits_append active vs ws).symm⟩

theorem visits_subset (active : Option Path) (vs : List (Path × String)) :
    visits active vs ⊆ vs := by
  induction vs generalizing active with
  | nil => simp [visits]
  | cons v vs ih =>
    rw [visits]
    split
    · exact List.subset_cons_of_subset v (ih active)
    · exact List.cons_subset_cons v (ih _)

/-- Whether the paths of activations have URIs. -/
def Convertible (folder : Path) (activated : List (Path × String)) : Prop :=
  ∀ v ∈ activated, ∃ uri, Uri.ofPathIn folder v.1 = .ok uri

theorem Convertible.subset {folder : Path} {vs ws : List (Path × String)}
    (h : Convertible folder ws) (sub : vs ⊆ ws) : Convertible folder vs :=
  fun v made => h v (sub made)

end Lane

/-! ## The order -/

namespace Session

/-- Whether the handshake has succeeded: the server has answered its request, and the call
has its result. -/
def Greeted (s : Session) : Prop := s.Acknowledged 1 ∧ ∃ v, s.result? 1 = some (.ok v)

/-- Whether a handshake has failed. -/
def Rejected (s : Session) : Prop :=
  ∃ n c params e, s.call? n = some c ∧ c.goal = .handshake params ∧ c.result? = some (.error e)

end Session

namespace Lane

/-- Whether documents are those that activations lead to, from the first one on, with the
URIs of their paths. -/
def Shows (folder : Path) (documents : List Document) (activated : List (Path × String)) :
    Prop :=
  (documents.map fun d => (Except.ok d.uri, d.text)) <+:
    (visits none activated).map fun v => (Uri.ofPathIn folder v.1, v.2)

/-- Whether what was sent is in the order of the script: nothing but the order to exit
follows the request of a handshake that the server has not completed, and only documents
that were activated and the two messages of the end follow the others. -/
def InOrder (l : Lane) (activated : List (Path × String)) : Prop :=
  l.session.sent <+: [.hello l.greeting, .leave] ∨
    l.session.Greeted ∧ ∃ documents, Shows l.folder documents activated ∧
      l.session.sent <+: Message.script l.greeting documents ++ [.bye, .leave]

end Lane

end LanguageClient
