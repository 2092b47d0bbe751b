import LanguageClient.Json.Record

/-!
# Diagnostics

What a server reports about a document: a span, a message and optional details.
An unknown severity reads as none, so that it never costs the whole report.
-/

set_option autoImplicit false

namespace LanguageClient

/-- A place in a document: line and UTF-16 offset, both from zero. -/
structure Position where
  line : Nat
  character : Nat
  deriving DecidableEq, Repr

/-- The text from one place up to before another. -/
structure Span where
  start : Position
  stop : Position
  deriving DecidableEq, Repr

/-- How serious a diagnostic is. -/
inductive Severity where
  | error
  | warning
  | information
  | hint
  deriving DecidableEq, Repr

/-- One remark of a server about a document. -/
structure Diagnostic where
  span : Span
  severity : Option Severity
  code : Option Json
  source : Option String
  message : String
  deriving DecidableEq, Repr

/-- All that a server has to say about one document at one time. -/
structure Publication where
  uri : String
  version : Option Int
  diagnostics : List Diagnostic
  deriving DecidableEq, Repr

/-- A whole number of 32 bits. -/
def natural32? : Json → Option Nat := Json.asNat? 0x100000000

namespace Position

/-- A position as JSON. -/
def toJson (p : Position) : Json :=
  Json.ofMembers [("line", .int p.line), ("character", .int p.character)]

/-- The position that a value is. -/
def ofJson? (v : Json) : Option Position := do
  let r ← v.record? 2
  let line ← r.required 0 "line" natural32?
  let character ← r.required 1 "character" natural32?
  return { line, character }

end Position

namespace Span

/-- A span as JSON. -/
def toJson (s : Span) : Json :=
  Json.ofMembers [("start", s.start.toJson), ("end", s.stop.toJson)]

/-- The span that a value is. -/
def ofJson? (v : Json) : Option Span := do
  let r ← v.record? 2
  let start ← r.required 0 "start" Position.ofJson?
  let stop ← r.required 1 "end" Position.ofJson?
  return { start, stop }

end Span

namespace Severity

/-- The number of a severity. -/
def number : Severity → Nat
  | .error => 1
  | .warning => 2
  | .information => 3
  | .hint => 4

/-- The severity of a number. -/
def ofNumber? : Nat → Option Severity
  | 1 => some .error
  | 2 => some .warning
  | 3 => some .information
  | 4 => some .hint
  | _ => none

theorem number_of_ofNumber? {n : Nat} {s : Severity} (h : ofNumber? n = some s) :
    s.number = n := by
  unfold ofNumber? at h
  split at h <;> simp at h <;> subst h <;> rfl

/-- The word for a severity. -/
def label : Severity → String
  | .error => "error"
  | .warning => "warning"
  | .information => "info"
  | .hint => "hint"

/-- The text shown for a number that is no severity. -/
def unknownText (n : Nat) : String :=
  "unknown diagnostic severity: " ++ toString n

/-- A severity as JSON. -/
def toJson (s : Severity) : Json := .int s.number

/-- The severity that a value is. -/
def ofJson? (v : Json) : Option Severity :=
  (Json.asNat? 256 v).bind ofNumber?

/-- The severity that a value is, or none for any other value. -/
def lenient (v : Json) : Option Severity :=
  ofJson? v

end Severity

namespace Diagnostic

/-- A diagnostic as JSON. -/
def toJson (d : Diagnostic) : Json :=
  Json.ofPresent [("range", some d.span.toJson), ("severity", d.severity.map Severity.toJson),
    ("code", d.code), ("source", d.source.map .str), ("message", some (.str d.message))]

/-- The diagnostic that a value is. -/
def ofJson? (v : Json) : Option Diagnostic := do
  let r ← v.record? 5
  let span ← r.required 0 "range" Span.ofJson?
  let severity := (r.get? 1 "severity").bind Severity.lenient
  let code ← r.optional 2 "code" some
  let source ← r.optional 3 "source" Json.asString?
  let message ← r.required 4 "message" Json.asString?
  return { span, severity, code, source, message }

/-- The severity that counts: a diagnostic without one is an error. -/
def effectiveSeverity (d : Diagnostic) : Severity := d.severity.getD .error

end Diagnostic

/-- The list that a value is, if every item decodes. -/
def Json.list? {α : Type} (decode : Json → Option α) : Json → Option (List α)
  | .arr items => items.mapM decode
  | _ => none

namespace Publication

/-- A publication as JSON. -/
def toJson (p : Publication) : Json :=
  Json.ofPresent [("uri", some (.str p.uri)), ("version", p.version.map .int),
    ("diagnostics", some (.arr (p.diagnostics.map Diagnostic.toJson)))]

/-- The publication that a value is. -/
def ofJson? (v : Json) : Option Publication := do
  let r ← v.record? 3
  let uri ← r.required 0 "uri" Json.asString?
  let version ← r.optional 1 "version" Json.int32?
  let diagnostics ← r.required 2 "diagnostics" (Json.list? Diagnostic.ofJson?)
  return { uri, version, diagnostics }

end Publication

end LanguageClient
