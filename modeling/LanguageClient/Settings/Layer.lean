import LanguageClient.Settings.Error
import LanguageClient.Settings.Toml
import LanguageClient.Settings.Violation
import LanguageClient.Toml.Reader

/-!
# Layers of settings

A layer is a text that sets some of the settings.  Laying it over settings keeps
what it does not mention: the settings become a table, the layer is merged into it
key by key, and the result is read back.
-/

set_option autoImplicit false

namespace LanguageClient.Settings

/-- Lays a table over settings. -/
def layer? (base : Settings) (above : Toml.Value) : Option Settings :=
  ofToml? (base.toToml.merge above)

/-- Lays a text over settings. -/
def merge (base : Settings) (text : String) : Except SettingsError Settings :=
  match (Toml.read? text.toList).bind base.layer? with
  | some s => .ok s
  | none => .error (.parse none)

/-- The settings if nothing is wrong with them: otherwise the first violation, with a
record of each other one. -/
def check (s : Settings) : Except SettingsError Settings × List LogRecord :=
  match s.violations with
  | [] => (.ok s, [])
  | first :: others =>
    (.error first.toError, others.map fun v => .warn v.toError.message)

/-- The settings that a text sets. -/
def ofText (text : String) : Except SettingsError Settings × List LogRecord :=
  match merge .default text with
  | .ok s => s.check
  | .error e => (.error e, [])

end LanguageClient.Settings
