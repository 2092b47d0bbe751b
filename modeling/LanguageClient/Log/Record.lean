/-!
# Log records

The levels of a log and the records that a client leaves for an operator.
-/

set_option autoImplicit false

namespace LanguageClient

/-- How much a log tells, from everything to failures only. -/
inductive LogLevel where
  | trace
  | debug
  | info
  | warn
  | error
  deriving DecidableEq, Repr

namespace LogLevel

/-- All levels. -/
def all : List LogLevel := [.trace, .debug, .info, .warn, .error]

/-- The name of a level in settings. -/
def name : LogLevel → String
  | .trace => "trace"
  | .debug => "debug"
  | .info => "info"
  | .warn => "warn"
  | .error => "error"

/-- The level of a name. -/
def ofName? (s : String) : Option LogLevel :=
  all.find? (·.name = s)

/-- The rank of a level: the higher, the more important a record. -/
def rank : LogLevel → Nat
  | .trace => 0
  | .debug => 1
  | .info => 2
  | .warn => 3
  | .error => 4

/-- Whether a log at this level keeps records of level `l`. -/
def keeps (threshold l : LogLevel) : Bool :=
  threshold.rank ≤ l.rank

/-- The word that marks a record of a level. -/
def label : LogLevel → String
  | .trace => "TRACE"
  | .debug => "DEBUG"
  | .info => "INFO"
  | .warn => "WARN"
  | .error => "ERROR"

end LogLevel

/-- A record that a client leaves. -/
structure LogRecord where
  level : LogLevel
  text : String
  deriving DecidableEq, Repr

namespace LogRecord

/-- A record of something unexpected that the client survives. -/
def warn (text : String) : LogRecord := ⟨.warn, text⟩

/-- A record of a failure. -/
def error (text : String) : LogRecord := ⟨.error, text⟩

/-- The line of a record: its label and its text. -/
def line (r : LogRecord) : String := r.level.label ++ " " ++ r.text

end LogRecord

end LanguageClient
