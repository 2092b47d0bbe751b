import LanguageClient.Files.IoError

/-!
# Failures of settings

Why settings cannot be read or used, and the text shown for it.
-/

set_option autoImplicit false

namespace LanguageClient

/-- A failure to read or use settings. -/
inductive SettingsError where
  /-- The commented settings file could not be created. -/
  | createDefault (detail : String)
  /-- The text is malformed or does not describe settings; files are named. -/
  | parse (place : Option String)
  /-- A value that reads well but cannot be used. -/
  | violation (field : String) (message : String)
  | io (error : IoError)
  deriving DecidableEq, Repr

/-- The text shown for a failure. -/
def SettingsError.message : SettingsError → String
  | .createDefault detail => "failed to create default config: " ++ detail
  | .parse place => "TOML parse error" ++ place.elim "" (": " ++ ·)
  | .violation field message => "validation error: " ++ field ++ ": " ++ message
  | .io e => "I/O error: " ++ e.message

end LanguageClient
