/-!
# Durations as text

A length of time with the largest unit in which it is at least one, as a decimal
number without zeros at the end.
-/

set_option autoImplicit false

namespace LanguageClient.Text

/-- The text of a number of milliseconds. -/
def duration (milliseconds : Nat) : String :=
  if milliseconds = 0 then "0ns"
  else if milliseconds < 1000 then toString milliseconds ++ "ms"
  else
    let fraction := (Nat.toDigits 10 (1000 + milliseconds % 1000)).drop 1
    let kept := (fraction.reverse.dropWhile (· = '0')).reverse
    toString (milliseconds / 1000) ++
      (if kept.isEmpty then "" else "." ++ String.ofList kept) ++ "s"

end LanguageClient.Text
