import LanguageClient.Text.Hidden

/-!
# Quoted text for inspection

A text between quotation marks in which every character that does not show by
itself is written as an escape.
-/

set_option autoImplicit false

namespace LanguageClient.Text

/-- How one character is written between quotation marks. -/
def inspectChar (c : Char) : List Char :=
  if c = '"' then ['\\', '"']
  else if c = '\\' then ['\\', '\\']
  else if c = '\n' then ['\\', 'n']
  else if c = '\r' then ['\\', 'r']
  else if c = '\t' then ['\\', 't']
  else if c.toNat = 0 then ['\\', '0']
  else if isHidden c then ['\\', 'u', '\x7b'] ++ Nat.toDigits 16 c.toNat ++ ['\x7d']
  else [c]

/-- A text between quotation marks. -/
def inspect (s : String) : String :=
  String.ofList ('"' :: s.toList.flatMap inspectChar ++ ['"'])

/-- A list of texts between brackets. -/
def inspectList (texts : List String) : String :=
  "[" ++ ", ".intercalate (texts.map inspect) ++ "]"

end LanguageClient.Text
