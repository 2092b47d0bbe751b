import LanguageClient.Number.Digits
import LanguageClient.Protocol.Diagnostic
import LanguageClient.Uri.FilePath

/-!
# The store of diagnostics

Servers publish the full set for a document, so each publication replaces the one
before.  A publication that states an older version than the stored one is stale
and refused; a publication that clears a document is kept for its version.
-/

set_option autoImplicit false

namespace LanguageClient

namespace Diagnostics

/-- What is kept for one document. -/
structure Entry where
  version : Option Int
  diagnostics : List Diagnostic
  deriving DecidableEq, Repr

/-- The latest diagnostics of every document, in the order of the URIs. -/
structure Store where
  entries : Entries Entry
  deriving DecidableEq, Repr

namespace Store

/-- The store before anything is published. -/
def empty : Store := ⟨[]⟩

/-- Whether a publication is older than what is stored. -/
def isStale (s : Store) (p : Publication) : Bool :=
  match p.version, (s.entries.find? p.uri).bind Entry.version with
  | some incoming, some current => incoming < current
  | _, _ => false

/-- Takes a publication in, unless it is stale: the new store, and whether it was taken. -/
def apply (s : Store) (p : Publication) : Store × Bool :=
  if s.isStale p then (s, false)
  else if p.diagnostics.isEmpty && p.version.isNone then (⟨s.entries.remove p.uri⟩, true)
  else (⟨s.entries.put p.uri ⟨p.version, p.diagnostics⟩⟩, true)

/-- The diagnostics of a document. -/
def get (s : Store) (uri : String) : List Diagnostic :=
  (s.entries.find? uri).elim [] Entry.diagnostics

/-- The documents with at least one diagnostic, in the order of their URIs. -/
def toList (s : Store) : List (String × List Diagnostic) :=
  (s.entries.filter fun e => !e.2.diagnostics.isEmpty).map fun e => (e.1, e.2.diagnostics)

/-- How many diagnostics there are. -/
def totalCount (s : Store) : Nat :=
  s.entries.foldl (fun n e => n + e.2.diagnostics.length) 0

/-- How many documents have a diagnostic. -/
def fileCount (s : Store) : Nat := s.toList.length

/-- How many diagnostics have a severity; those without one are errors. -/
def countBySeverity (s : Store) (severity : Severity) : Nat :=
  ((s.entries.flatMap fun e => e.2.diagnostics).filter (·.effectiveSeverity = severity)).length

/-- What is shown for a document: its path, or the URI when that names no path. -/
def location (uri : String) : String :=
  ((Uri.toPath? uri).map Path.display).getD uri

/-- The line shown for a diagnostic; lines and characters are counted from one. -/
def line (location : String) (d : Diagnostic) : String :=
  location ++ ":" ++ toString (d.span.start.line + 1) ++ ":" ++
    toString (d.span.start.character + 1) ++ ": " ++ d.effectiveSeverity.label ++ ": " ++ d.message

/-- Whether one diagnostic starts no later than another. -/
def startsBefore (a b : Diagnostic) : Bool :=
  a.span.start.line < b.span.start.line ||
    (a.span.start.line == b.span.start.line &&
      a.span.start.character ≤ b.span.start.character)

/-- The lines of one document, by start; equal starts keep the published order. -/
def documentLines (uri : String) (diagnostics : List Diagnostic) : List String :=
  (diagnostics.mergeSort startsBefore).map (line (location uri))

/-- A line for every diagnostic. -/
def lines (s : Store) : List String :=
  s.toList.flatMap fun (uri, diagnostics) => documentLines uri diagnostics

/-- The closing remark, unless there is nothing to report. -/
def summary (s : Store) : Option String :=
  if s.totalCount = 0 then none
  else some (toString (s.countBySeverity .error) ++ " error(s), " ++
    toString (s.countBySeverity .warning) ++ " warning(s) in " ++
    toString s.fileCount ++ " file(s)")

end Store

end Diagnostics

end LanguageClient
