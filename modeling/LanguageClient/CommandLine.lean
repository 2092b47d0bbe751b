import LanguageClient.Diagnostics.Store
import LanguageClient.Log.File
import LanguageClient.Settings.Load

/-!
# The command line

One run of the program: settings are loaded, the log is opened, and if servers are
enabled they are asked about the files that were named.  What a run prints, its exit
code and the files afterwards are a function of where it runs; how servers are asked
is given to it.
-/

set_option autoImplicit false

namespace LanguageClient.CommandLine

/-- Where a run takes place. -/
structure Surroundings where
  home : Option Path
  configHome : Option Path
  dataHome : Option Path
  /-- The home directory of the account, for want of one in the environment. -/
  account : Option Path
  /-- The working folder. -/
  folder : Path
  /-- The time of day, as it stands in front of log lines. -/
  time : String

/-- What servers have said about files. -/
structure Report where
  store : Diagnostics.Store
  /-- The lines for the standard error output. -/
  complaints : List String

/-- Asks servers about files, given the settings and the project's folder. -/
abbrev Inquiry := FileTree → Settings → Path → List Path → Report

/-- What a run gives. -/
structure Outcome where
  code : Nat
  /-- The lines of the standard output. -/
  printed : List String
  /-- The lines of the standard error output. -/
  complaints : List String
  files : FileTree

/-- Why a run fails. -/
inductive Failure where
  | locations (error : SetupError)
  | settings (error : SettingsError)
  | log (file : Path) (error : IoError)

/-- The text of a failure: what was being done, what went wrong, and the cause below
it when there is one. -/
def Failure.message : Failure → String
  | .locations e => "failed to detect platform paths: " ++ e.message
  | .settings (.io e) =>
    "failed to load configuration: " ++ (SettingsError.io e).message ++ ": " ++ e.message
  | .settings e => "failed to load configuration: " ++ e.message
  | .log file e =>
    "failed to open log file: " ++ (SetupError.logFile file e).message ++ ": " ++ e.message

/-- A line of the program's own log. -/
def logLine (time text : String) : String :=
  time ++ "  INFO vicode::runner: " ++ text ++ "\n"

/-- Adds lines to a log, if its level keeps them. -/
def note (t : FileTree) (log : Path) (level : LogLevel) (time : String) (texts : List String) :
    FileTree :=
  if level.keeps .info then
    match t.append log (String.join (texts.map (logLine time))).toUTF8 with
    | .ok t => t
    | .error _ => t
  else t

/-- A run that fails. -/
def fail (t : FileTree) (f : Failure) : Outcome :=
  ⟨1, [], ["vicode: " ++ f.message], t⟩

/-- The run once settings are loaded and the log is open. -/
def proceed (inquiry : Inquiry) (site : Surroundings) (s : Settings) (log : Path) (t : FileTree)
    (files : List Path) : Outcome :=
  let starting := "vicode starting, log level: " ++ s.log.level.name
  if s.lsp.enabled then
    let report := inquiry t s site.folder files
    ⟨0, report.store.lines, report.complaints ++ report.store.summary.toList,
      note t log s.log.level site.time [starting, "vicode exited cleanly"]⟩
  else ⟨0, [], [], note t log s.log.level site.time [starting, "language servers disabled"]⟩

/-- The log of a run with some settings. -/
def logFile (places : Locations) (s : Settings) : Path :=
  (s.log.file.map Path.ofString).getD places.logFile

/-- A run over the files that were named. -/
def run (inquiry : Inquiry) (site : Surroundings) (t : FileTree) (files : List Path) : Outcome :=
  match Locations.ofEnvironment site.home site.configHome site.dataHome site.account with
  | .error e => fail t (.locations e)
  | .ok places =>
    let loaded := Settings.load t places.configDir (some site.folder)
    match loaded.settings with
    | .error e => fail loaded.files (.settings e)
    | .ok s =>
      let log := logFile places s
      match (LogFile.open log).on loaded.files with
      | (.error e, t) => fail t (.log log e)
      | (.ok (), t) => proceed inquiry site s log t files

/-! ## What a run looks at -/

/-- The files that settings make a run look at. -/
def filesOf (places : Locations) (s : Settings) : List Path :=
  let log := logFile places s
  let slots := (List.range (LogFile.maxFiles + 1)).map fun n => LogFile.slot log (n + 1)
  let arguments := s.lsp.servers.flatMap fun e => e.2.args.map Path.ofString
  log :: slots ++ arguments

/-- The files that a run looks at, as far as the files that are known tell. -/
def interests (site : Surroundings) (t : FileTree) (files : List Path) : List Path :=
  match Locations.ofEnvironment site.home site.configHome site.dataHome site.account with
  | .error _ => []
  | .ok places =>
    let own := places.configDir.child Settings.fileName
    let projects := site.folder.ancestors.map fun above =>
      (above.child Settings.projectFolder).child Settings.fileName
    let settings := ((Settings.load t places.configDir (some site.folder)).settings).toOption
    own :: projects ++ (settings.map (filesOf places)).getD [] ++ files

end LanguageClient.CommandLine
