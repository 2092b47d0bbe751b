/-!
# Failures of the operating system

The ways in which file and process operations fail, and the text shown for each.
-/

set_option autoImplicit false

namespace LanguageClient

/-- A failure of an input or output operation. -/
inductive IoError where
  | notFound
  | permissionDenied
  | busy
  | alreadyExists
  | notDirectory
  | isDirectory
  | invalidArgument
  | nameTooLong
  | notEmpty
  /-- A file that was to be read as text is not UTF-8. -/
  | notText
  /-- A file name contains a NUL byte. -/
  | nulInName
  /-- An argument of a program contains a NUL byte. -/
  | nulInArgument
  /-- Writing to a pipe that nobody reads. -/
  | brokenPipe
  /-- A failure known by its text alone. -/
  | other (text : String)
  deriving DecidableEq, Repr

/-- The text of a failure that the operating system numbers. -/
def IoError.numbered (text : String) (number : String) : String :=
  text ++ " (os error " ++ number ++ ")"

/-- The text shown for a failure. -/
def IoError.message : IoError → String
  | .notFound => numbered "No such file or directory" "2"
  | .permissionDenied => numbered "Permission denied" "13"
  | .busy => numbered "Device or resource busy" "16"
  | .alreadyExists => numbered "File exists" "17"
  | .notDirectory => numbered "Not a directory" "20"
  | .isDirectory => numbered "Is a directory" "21"
  | .invalidArgument => numbered "Invalid argument" "22"
  | .nameTooLong => numbered "File name too long" "36"
  | .notEmpty => numbered "Directory not empty" "39"
  | .notText => "stream did not contain valid UTF-8"
  | .nulInName => "file name contained an unexpected NUL byte"
  | .nulInArgument => "nul byte found in provided data"
  | .brokenPipe => "broken pipe"
  | .other text => text

end LanguageClient
