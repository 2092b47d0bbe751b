/-!
# Blank characters

The characters of the Unicode property White_Space, and trimming by it.
-/

set_option autoImplicit false

namespace LanguageClient.Text

/-- The code points of the property White_Space. -/
def isBlank (c : Char) : Bool :=
  let n := c.toNat
  (9 ≤ n && n ≤ 13) || n = 0x20 || n = 0x85 || n = 0xA0 || n = 0x1680 ||
    (0x2000 ≤ n && n ≤ 0x200A) || n = 0x2028 || n = 0x2029 || n = 0x202F ||
    n = 0x205F || n = 0x3000

/-- Whether the character is a space or a tab. -/
def isGap (c : Char) : Bool := c = ' ' || c = '\t'

theorem isBlank_of_isGap {c : Char} (gap : isGap c = true) : isBlank c = true := by
  simp only [isGap, Bool.or_eq_true, decide_eq_true_eq] at gap
  rcases gap with rfl | rfl <;> decide

/-- A list without its leading and trailing elements of a class. -/
def trimBoth (p : Char → Bool) (cs : List Char) : List Char :=
  ((cs.dropWhile p).reverse.dropWhile p).reverse

/-- A text without leading and trailing blanks. -/
def trim (cs : List Char) : List Char :=
  trimBoth isBlank cs

/-- A list without its trailing elements of a class. -/
def trimEnd (p : Char → Bool) (cs : List Char) : List Char :=
  (cs.reverse.dropWhile p).reverse

/-- The lines of a text: each ends at a line feed or at the end of the text, and
one carriage return before the line feed belongs to the ending. -/
def lines : List Char → List (List Char)
  | [] => []
  | cs => go [] cs
where
  /-- Reads on with the reversed characters of the current line. -/
  go (line : List Char) : List Char → List (List Char)
    | [] => if line.isEmpty then [] else [line.reverse]
    | '\n' :: rest => ended line :: go [] rest
    | c :: rest => go (c :: line) rest
  /-- A line that a line feed has ended. -/
  ended : List Char → List Char
    | '\r' :: line => line.reverse
    | line => line.reverse

end LanguageClient.Text
