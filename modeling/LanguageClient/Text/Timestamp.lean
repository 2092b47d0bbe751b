import LanguageClient.Number.Digits

/-!
# Timestamps

A moment counted from the start of 1970 is written as a date and a time of day, in
universal time.
-/

set_option autoImplicit false

namespace LanguageClient.Text

open Number (padded)

/-- The year, month and day of a number of days since the start of 1970.  Years are
counted from March here, so that the day that leap years have more comes last; an era
has 400 years. -/
def civil (days : Nat) : Nat × Nat × Nat :=
  let shifted := days + 719468
  let era := shifted / 146097
  let dayOfEra := shifted % 146097
  let yearOfEra :=
    (dayOfEra - dayOfEra / 1460 + dayOfEra / 36524 - dayOfEra / 146096) / 365
  let dayOfYear := dayOfEra - (365 * yearOfEra + yearOfEra / 4 - yearOfEra / 100)
  let month := (5 * dayOfYear + 2) / 153
  let day := dayOfYear - (153 * month + 2) / 5 + 1
  let year := yearOfEra + era * 400
  if month < 10 then (year, month + 3, day) else (year + 1, month - 9, day)

/-- A moment given in seconds since the start of 1970, and microseconds. -/
def timestamp (seconds microseconds : Nat) : String :=
  let (year, month, day) := civil (seconds / 86400)
  let time := seconds % 86400
  String.ofList (padded 4 year ++ '-' :: padded 2 month ++ '-' :: padded 2 day ++
    'T' :: padded 2 (time / 3600) ++ ':' :: padded 2 (time / 60 % 60) ++
    ':' :: padded 2 (time % 60) ++ '.' :: padded 6 microseconds ++ ['Z'])

end LanguageClient.Text
