import LanguageClient.Files.Tree
import LanguageClient.Settings.Layer

/-!
# Loading settings

The settings of a user lie in one file, those of a project in another, in the
nearest folder above the project that has one.  The project's are laid over the
user's, and the user's over the defaults.  A user who has no settings file yet gets
one with everything commented out.
-/

set_option autoImplicit false

namespace LanguageClient.Settings

/-- The settings file of a new user. -/
def template : String :=
  "# vicode configuration\n" ++
  "# Uncomment and edit settings below to override defaults.\n" ++
  "\n" ++
  "# [log]\n" ++
  "# level = \"info\"\n" ++
  "# file = \"/path/to/vicode.log\"\n" ++
  "\n" ++
  "# [lsp]\n" ++
  "# enabled = true\n" ++
  "# request_timeout_secs = 10\n" ++
  "# shutdown_timeout_secs = 5\n" ++
  "\n" ++
  "# [lsp.servers.python]\n" ++
  "# command = \"pylsp\"\n" ++
  "# args = []\n" ++
  "# extensions = [\"py\", \"pyi\"]\n" ++
  "\n" ++
  "# [lsp.servers.rust]\n" ++
  "# command = \"rust-analyzer\"\n" ++
  "# extensions = [\"rs\"]\n"

/-- The name of a settings file. -/
def fileName : String := "config.toml"

/-- The folder of a project's settings. -/
def projectFolder : String := ".vicode"

/-- Whether a line is neither blank nor a comment. -/
def isSignificant (line : List Char) : Bool :=
  let trimmed := Text.trim line
  !trimmed.isEmpty && trimmed.head? != some '#'

/-- Whether a text has a line that is neither blank nor a comment. -/
def hasContent (text : String) : Bool :=
  (Text.lines text.toList).any isSignificant

/-- Makes the settings file of a user who has none. -/
def createMissing (folder : Path) : FileWork Unit := do
  let file := folder.child fileName
  if (← get).exists file then pure ()
  else do
    FileWork.makeFolders folder
    FileWork.change (·.write file template.toUTF8)

/-- The text of a file. -/
def readFile (t : FileTree) (file : Path) : Except SettingsError String :=
  (t.readText file).mapError SettingsError.io

/-- Lays the text of a file over settings; a malformed text is reported with the name
of the file. -/
def mergeFile (base : Settings) (file : Path) (text : String) : Except SettingsError Settings :=
  match base.merge text with
  | .error (.parse none) => .error (.parse (some file.display))
  | r => r

/-- The settings file of a project: the nearest one above a folder. -/
def projectFile? (t : FileTree) (start : Path) : Option Path :=
  (start.ancestors.map fun folder => (folder.child projectFolder).child fileName).find? t.isFile

/-- The user's settings, over the defaults. -/
def loadUser (t : FileTree) (folder : Path) : Except SettingsError Settings := do
  let file := folder.child fileName
  let text ← readFile t file
  if hasContent text then mergeFile .default file text else .ok .default

/-- A project's settings, over those of the user. -/
def loadProject (t : FileTree) (project : Option Path) (base : Settings) :
    Except SettingsError Settings :=
  match project.bind (projectFile? t) with
  | none => .ok base
  | some file => do
    let text ← readFile t file
    mergeFile base file text

/-- What loading settings gives. -/
structure Loaded where
  settings : Except SettingsError Settings
  records : List LogRecord
  /-- The files afterwards. -/
  files : FileTree

/-- Loads the settings of a user and a project. -/
def load (t : FileTree) (folder : Path) (project : Option Path) : Loaded :=
  match (createMissing folder).on t with
  | (.error e, t) =>
    ⟨.error (.createDefault ((folder.child fileName).display ++ ": " ++ e.message)), [], t⟩
  | (.ok (), t) =>
    match (loadUser t folder).bind (loadProject t project) with
    | .error e => ⟨.error e, [], t⟩
    | .ok s =>
      let (checked, records) := s.check
      ⟨checked, records, t⟩

end LanguageClient.Settings
