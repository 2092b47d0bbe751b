import LanguageClient.Number.Digits
import LanguageClient.Rehearsal.Script.Lexer

/-!
# Arithmetic in scripts

Integer expressions with names, parentheses, signs, the four operations with remainder,
and comparisons, which give one or zero.
-/

set_option autoImplicit false

namespace LanguageClient.Script.Arithmetic

/-- An operation of two numbers; dividing by zero has no value. -/
def operate? (operator : List Char) (a b : Int) : Option Int :=
  let truth (t : Bool) : Option Int := some (if t then 1 else 0)
  match operator with
  | ['+'] => some (a + b)
  | ['-'] => some (a - b)
  | ['*'] => some (a * b)
  | ['/'] => if b = 0 then none else some (a.tdiv b)
  | ['%'] => if b = 0 then none else some (a.tmod b)
  | ['<'] => truth (a < b)
  | ['>'] => truth (b < a)
  | ['<', '='] => truth (a ≤ b)
  | ['>', '='] => truth (b ≤ a)
  | ['=', '='] => truth (a = b)
  | ['!', '='] => truth (a ≠ b)
  | _ => none

/-- The operators by increasing strength; longer ones stand first. -/
def levels : List (List (List Char)) :=
  [["==".toList, "!=".toList], ["<=".toList, ">=".toList, ['<'], ['>']],
    [['+'], ['-']], [['*'], ['/'], ['%']]]

/-- The expression without blanks in front. -/
def skipBlanks (cs : List Char) : List Char :=
  cs.dropWhile fun c => c = ' ' || c = '\t' || c = '\n' || c = '$'

/-- One of some operators at the start. -/
def operator? (operators : List (List Char)) (cs : List Char) :
    Option (List Char × List Char) :=
  let cs := skipBlanks cs
  (operators.find? (·.isPrefixOf cs)).map fun o => (o, cs.drop o.length)

mutual

/-- The value of the operators of some levels. -/
def value? (valueOf : String → Int) : Nat → List (List (List Char)) → List Char →
    Option (Int × List Char)
  | 0, _, _ => none
  | fuel + 1, [], cs => primary? valueOf fuel cs
  | fuel + 1, operators :: stronger, cs => do
    let (a, rest) ← value? valueOf fuel stronger cs
    chain? valueOf fuel operators stronger a rest

/-- Applies the operators of one level from the left. -/
def chain? (valueOf : String → Int) : Nat → List (List Char) → List (List (List Char)) → Int →
    List Char → Option (Int × List Char)
  | 0, _, _, _, _ => none
  | fuel + 1, operators, stronger, a, cs =>
    match operator? operators cs with
    | none => some (a, cs)
    | some (o, rest) => do
      let (b, rest) ← value? valueOf fuel stronger rest
      let c ← operate? o a b
      chain? valueOf fuel operators stronger c rest

/-- A number, a name, or an expression with a sign or parentheses. -/
def primary? (valueOf : String → Int) : Nat → List Char → Option (Int × List Char)
  | 0, _ => none
  | fuel + 1, cs =>
    match skipBlanks cs with
    | '(' :: rest => do
      let (a, rest) ← value? valueOf fuel levels rest
      match skipBlanks rest with
      | ')' :: rest => return (a, rest)
      | _ => none
    | '-' :: rest => (primary? valueOf fuel rest).map fun (a, r) => (-a, r)
    | '+' :: rest => primary? valueOf fuel rest
    | '!' :: rest => (primary? valueOf fuel rest).map fun (a, r) => (if a = 0 then 1 else 0, r)
    | c :: rest =>
      if Number.isDigit c then
        some (Number.natOfDigits (c :: rest.takeWhile Number.isDigit),
          rest.dropWhile Number.isDigit)
      else if startsName c then
        some (valueOf (String.ofList (c :: rest.takeWhile inName)), rest.dropWhile inName)
      else none
    | [] => none

end

/-- The value of an expression. -/
def evaluate? (valueOf : String → Int) (cs : List Char) : Option Int := do
  let (a, rest) ← value? valueOf (8 * cs.length + 16) levels cs
  if (skipBlanks rest).isEmpty then return a else none

/-- The integer that a text spells, zero for any other text. -/
def intOf (cs : List Char) : Int :=
  match cs with
  | '-' :: digits => -(((Number.ofDigits? 10 digits).getD 0 : Nat) : Int)
  | digits => ((Number.ofDigits? 10 digits).getD 0 : Nat)

end LanguageClient.Script.Arithmetic
