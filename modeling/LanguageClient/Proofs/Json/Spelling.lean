import LanguageClient.Proofs.Json.Literals
import LanguageClient.Proofs.Text.Utf8
import Mathlib.Data.List.Chain
import Mathlib.Data.List.Forall2
import Mathlib.Tactic.SplitIfs

/-!
# How tokens are written

The lexical grammar of JSON: how a character may be written inside a string, how a token may be
written, and that tokens stand one behind the other with gaps between them.  Whatever yields
tokens is a spelling of them.  Conversely a spelling yields its tokens, if no two literals touch
(`Separate`), as the tokens of a value never do.
-/

set_option autoImplicit false

namespace LanguageClient.Json

open LanguageClient.Number

/-! ## The lexical grammar -/

/-- The value of hexadecimal digits behind digits that have a value. -/
def hexOn? (value : Nat) (ds : List Char) : Option Nat :=
  ds.foldlM (fun n d => (digitValue? 16 d).map (n * 16 + ·)) value

/-- Whether characters are four hexadecimal digits with a value. -/
def IsUnit (ds : List Char) (n : Nat) : Prop := ds.length = 4 ∧ hexOn? 0 ds = some n

/-- How a character may be written inside a string. -/
inductive WritesChar (c : Char) : List Char → Prop
  /-- As it is, unless it is a quotation mark, a backslash or a control character. -/
  | plain (quotation : c ≠ '"') (backslash : c ≠ '\\') (control : ¬ c.toNat < 0x20) :
      WritesChar c [c]
  /-- By its short escape. -/
  | short {e : Char} (escape : unescape? e = some c) : WritesChar c ['\\', e]
  /-- By its code unit. -/
  | unit {ds : List Char} (value : IsUnit ds c.toNat) : WritesChar c ('\\' :: 'u' :: ds)
  /-- By the two code units of a surrogate pair. -/
  | pair {ds es : List Char} {high low : Nat} (first : IsUnit ds high) (second : IsUnit es low)
      (isHigh : isHighSurrogate high = true) (isLow : isLowSurrogate low = true)
      (value : c = Char.ofNat (0x10000 + (high - 0xD800) * 0x400 + (low - 0xDC00))) :
      WritesChar c ('\\' :: 'u' :: ds ++ '\\' :: 'u' :: es)

/-- How a token may be written. -/
inductive Token.Writes : Token → List Char → Prop
  | openObject : Writes .openObject ['\x7b']
  | closeObject : Writes .closeObject ['\x7d']
  | openArray : Writes .openArray ['[']
  | closeArray : Writes .closeArray [']']
  | comma : Writes .comma [',']
  | colon : Writes .colon [':']
  | text {s : String} {parts : List (List Char)}
      (written : List.Forall₂ WritesChar s.toList parts) :
      Writes (.text s) ('"' :: parts.flatten ++ ['"'])
  | null : Writes (.scalar .null) ['n', 'u', 'l', 'l']
  | true : Writes (.scalar (.bool true)) ['t', 'r', 'u', 'e']
  | false : Writes (.scalar (.bool false)) ['f', 'a', 'l', 's', 'e']
  /-- A number that is not too large. -/
  | number {l : Literal} {v : Json} {cs : List Char} (literal : l.Writes cs)
      (value : l.value? = some v) : Writes (.scalar v) cs

/-- How tokens may be written one behind the other, with gaps around them. -/
inductive Spells : List Token → List Char → Prop
  | done {gap : List Char} (blank : ∀ c ∈ gap, isSpace c = true) : Spells [] gap
  | token {t : Token} {ts : List Token} {gap cs rest : List Char}
      (blank : ∀ c ∈ gap, isSpace c = true) (written : t.Writes cs) (more : Spells ts rest) :
      Spells (t :: ts) (gap ++ (cs ++ rest))

/-! ## Gaps and words -/

theorem Spells.gap {ts : List Token} {cs : List Char} (h : Spells ts cs) {c : Char}
    (blank : isSpace c = true) : Spells ts (c :: cs) := by
  cases h with
  | done others => exact .done (List.forall_mem_cons.mpr ⟨blank, others⟩)
  | token others written more =>
    exact .token (List.forall_mem_cons.mpr ⟨blank, others⟩) written more

theorem Spells.cons {t : Token} {ts : List Token} {cs rest : List Char} (written : t.Writes cs)
    (more : Spells ts rest) : Spells (t :: ts) (cs ++ rest) :=
  .token (List.forall_mem_nil _) written more

theorem writes_of_wordToken {cs : List Char} {t : Token} (h : wordToken? cs = some t) :
    t.Writes cs := by
  unfold wordToken? at h
  split_ifs at h with yes no null <;> obtain rfl := Option.some.inj h <;> subst_vars
  · exact .true
  · exact .false
  · exact .null

/-- A number is written by its literal. -/
theorem number?_eq_some_iff {cs : List Char} {v : Json} :
    number? cs = some v ↔ ∃ l : Literal, l.Writes cs ∧ l.value? = some v := by
  simp only [number?, Option.bind_eq_some_iff, split?_eq_some_iff]

/-! ## Hexadecimal digits -/

theorem digitValue?_lt {base : Nat} {c : Char} {d : Nat} (h : digitValue? base c = some d) :
    d < base := by
  simp only [digitValue?, Option.filter_eq_some_iff] at h
  simpa using h.2

theorem hexOn?_snoc {value n k : Nat} {ds : List Char} {d : Char} (front : hexOn? value ds = some n)
    (digit : digitValue? 16 d = some k) : hexOn? value (ds ++ [d]) = some (n * 16 + k) := by
  unfold hexOn? at front ⊢
  simp [List.foldlM_append, front, digit]

theorem lt_of_hexOn {value n : Nat} {ds : List Char} (h : hexOn? value ds = some n) :
    n < (value + 1) * 16 ^ ds.length := by
  induction ds generalizing value with
  | nil =>
    obtain rfl : value = n := by simpa [hexOn?] using h
    simp
  | cons d ds ih =>
    simp only [hexOn?, List.foldlM_cons, Option.bind_eq_bind, Option.bind_eq_some_iff,
      Option.map_eq_some_iff] at h
    obtain ⟨_, ⟨k, digit, rfl⟩, rest⟩ := h
    have small := digitValue?_lt digit
    calc n < (value * 16 + k + 1) * 16 ^ ds.length := ih rest
      _ ≤ ((value + 1) * 16) * 16 ^ ds.length := Nat.mul_le_mul_right _ (by omega)
      _ = (value + 1) * 16 ^ (d :: ds).length := by
        rw [Nat.mul_assoc, List.length_cons, Nat.pow_succ']

theorem IsUnit.lt {ds : List Char} {n : Nat} (h : IsUnit ds n) : n < 0x10000 := by
  have bound := lt_of_hexOn h.2
  rw [h.1] at bound
  simpa using bound

/-- A code unit outside the surrogates is a character. -/
theorem toNat_ofNat_unit {n : Nat} (small : n < 0x10000) (high : isHighSurrogate n = false)
    (low : isLowSurrogate n = false) : (Char.ofNat n).toNat = n := by
  simp only [isHighSurrogate, isLowSurrogate, Bool.and_eq_false_iff, decide_eq_false_iff_not]
    at high low
  exact Utf8.toNat_val_ofNat (by omega)

/-- No character is a surrogate. -/
theorem not_surrogate (c : Char) :
    isHighSurrogate c.toNat = false ∧ isLowSurrogate c.toNat = false := by
  have valid : c.toNat.isValidChar := c.valid
  rw [Nat.isValidChar] at valid
  simp only [isHighSurrogate, isLowSurrogate, Bool.and_eq_false_iff, decide_eq_false_iff_not]
  omega

/-! ## Tokens come from spellings -/

/-- How the start of a string may be written whose characters so far are given in reverse. -/
def Inside (cs pre : List Char) : Prop :=
  ∃ parts, List.Forall₂ WritesChar cs.reverse parts ∧ pre = '"' :: parts.flatten

theorem Inside.snoc {cs pre part : List Char} {c : Char} (inside : Inside cs pre)
    (written : WritesChar c part) : Inside (c :: cs) (pre ++ part) := by
  obtain ⟨parts, each, rfl⟩ := inside
  refine ⟨parts ++ [part], ?_, by simp⟩
  rw [List.reverse_cons]
  exact List.rel_append each (.cons written .nil)

/-- What has been read of the token that is being read. -/
inductive Begun : Reading → List Char → Prop
  | blank : Begun .blank []
  | word {cs : List Char} : Begun (.word cs) cs.reverse
  | number {cs : List Char} : Begun (.number cs) cs.reverse
  | string {cs pre : List Char} (inside : Inside cs pre) : Begun (.string cs) pre
  | escaped {cs pre : List Char} (inside : Inside cs pre) : Begun (.escaped cs) (pre ++ ['\\'])
  | unit {cs pre ds : List Char} {missing value : Nat} (inside : Inside cs pre)
      (size : ds.length + missing = 4) (wanting : 0 < missing) (digits : hexOn? 0 ds = some value) :
      Begun (.unit cs missing value) (pre ++ '\\' :: 'u' :: ds)
  | pair {cs pre ds : List Char} {high : Nat} (inside : Inside cs pre) (first : IsUnit ds high)
      (isHigh : isHighSurrogate high = true) : Begun (.pair cs high) (pre ++ '\\' :: 'u' :: ds)
  | pairEscaped {cs pre ds : List Char} {high : Nat} (inside : Inside cs pre)
      (first : IsUnit ds high) (isHigh : isHighSurrogate high = true) :
      Begun (.pairEscaped cs high) (pre ++ '\\' :: 'u' :: ds ++ ['\\'])
  | pairUnit {cs pre ds es : List Char} {high missing value : Nat} (inside : Inside cs pre)
      (first : IsUnit ds high) (isHigh : isHighSurrogate high = true)
      (size : es.length + missing = 4) (wanting : 0 < missing) (digits : hexOn? 0 es = some value) :
      Begun (.pairUnit cs high missing value) (pre ++ '\\' :: 'u' :: ds ++ '\\' :: 'u' :: es)

/-- Whether a character leads from what has been read of a token to the next state and the tokens
found: a spelling of what comes next is completed to one of the tokens found and what comes
next. -/
def Leads (pre : List Char) (c : Char) (next : Reading) (found : List Token) : Prop :=
  ∃ pre', Begun next pre' ∧
    ∀ rest ts, Spells ts (pre' ++ rest) → Spells (found ++ ts) (pre ++ c :: rest)

/-- The character belongs to the token. -/
theorem Leads.on {pre : List Char} {c : Char} {next : Reading} (begun : Begun next (pre ++ [c])) :
    Leads pre c next [] :=
  ⟨pre ++ [c], begun, fun rest ts spelling => by simpa using spelling⟩

/-- The character completes the token. -/
theorem Leads.through {pre : List Char} {c : Char} {t : Token} (written : t.Writes (pre ++ [c])) :
    Leads pre c .blank [t] :=
  ⟨[], .blank, fun rest ts spelling => by simpa using spelling.cons written⟩

/-- The character comes behind the token. -/
theorem Leads.behind {pre : List Char} {c : Char} {next : Reading} {t : Token}
    {found : List Token} (written : t.Writes pre) (more : Leads [] c next found) :
    Leads pre c next (t :: found) := by
  obtain ⟨pre', begun, leads⟩ := more
  exact ⟨pre', begun, fun rest ts spelling => (leads rest ts spelling).cons written⟩

/-- A character where a token may start leads to what is read afresh. -/
theorem leads_fresh {c : Char} {next : Reading} {found : List Token}
    (h : fresh c = some (next, found)) : Leads [] c next found := by
  revert h
  fun_cases fresh c <;> rintro ⟨⟩ <;> subst_vars
  case case1 gap => exact ⟨[], .blank, fun rest ts spelling => spelling.gap gap⟩
  case case2 => exact .through .openObject
  case case3 => exact .through .closeObject
  case case4 => exact .through .openArray
  case case5 => exact .through .closeArray
  case case6 => exact .through .comma
  case case7 => exact .through .colon
  case case8 => exact .on (.string ⟨[], .nil, rfl⟩)
  case case9 => exact .on .number
  case case10 => exact .on .word

/-- A character behind a token leads to what is read afresh behind it. -/
theorem leads_endToken {pre : List Char} {c : Char} {token : Option Token} {next : Reading}
    {found : List Token} (h : endToken token c = some (next, found))
    (written : ∀ t ∈ token, t.Writes pre) : Leads pre c next found := by
  obtain ⟨t, whole, rest⟩ := Option.bind_eq_some_iff.mp h
  obtain ⟨⟨next', found'⟩, afresh, same⟩ := Option.map_eq_some_iff.mp rest
  obtain ⟨rfl, rfl⟩ := Prod.mk.inj same
  exact .behind (written t whole) (leads_fresh afresh)

/-- A complete code unit leads to its character, or to the second half of a pair. -/
theorem leads_afterUnit {cs pre ds : List Char} {c : Char} {value : Nat} {next : Reading}
    (inside : Inside cs pre) (unit : IsUnit (ds ++ [c]) value)
    (h : afterUnit cs value = some next) : Leads (pre ++ '\\' :: 'u' :: ds) c next [] := by
  unfold afterUnit at h
  refine .on ?_
  rw [List.append_assoc]
  split_ifs at h with high low <;> obtain rfl := Option.some.inj h
  · exact .pair inside unit high
  · have same := toNat_ofNat_unit unit.lt (Bool.eq_false_iff.mpr high) (Bool.eq_false_iff.mpr low)
    exact .string (inside.snoc (.unit (same.symm ▸ unit)))

/-- A complete second code unit leads to the character of the pair. -/
theorem leads_afterPair {cs pre ds es : List Char} {c : Char} {high value : Nat} {next : Reading}
    (inside : Inside cs pre) (first : IsUnit ds high) (isHigh : isHighSurrogate high = true)
    (second : IsUnit (es ++ [c]) value) (h : afterPair cs high value = some next) :
    Leads (pre ++ '\\' :: 'u' :: ds ++ '\\' :: 'u' :: es) c next [] := by
  unfold afterPair at h
  split_ifs at h with low
  obtain rfl := Option.some.inj h
  refine .on ?_
  simpa using Begun.string (inside.snoc (.pair first second isHigh low rfl))

/-- Every character that is read leads on from what has been read. -/
theorem leads_readChar {state next : Reading} {pre : List Char} {c : Char} {found : List Token}
    (begun : Begun state pre) (h : readChar state c = some (next, found)) :
    Leads pre c next found := by
  cases begun with
  | blank => exact leads_fresh h
  | word =>
    simp only [readChar] at h
    split_ifs at h with letter
    · obtain ⟨rfl, rfl⟩ := Prod.mk.inj (Option.some.inj h)
      exact .on (List.reverse_cons ▸ .word)
    · exact leads_endToken h fun t whole => writes_of_wordToken whole
  | number =>
    simp only [readChar] at h
    split_ifs at h with digit
    · obtain ⟨rfl, rfl⟩ := Prod.mk.inj (Option.some.inj h)
      exact .on (List.reverse_cons ▸ .number)
    · refine leads_endToken h fun t whole => ?_
      obtain ⟨v, number, rfl⟩ := Option.map_eq_some_iff.mp whole
      obtain ⟨l, literal, value⟩ := number?_eq_some_iff.mp number
      exact .number literal value
  | string inside =>
    simp only [readChar] at h
    split_ifs at h with quotation backslash control <;>
      obtain ⟨rfl, rfl⟩ := Prod.mk.inj (Option.some.inj h)
    · obtain ⟨parts, each, rfl⟩ := inside
      subst quotation
      exact .through (.text (by simpa using each))
    · subst backslash
      exact .on (.escaped inside)
    · exact .on (.string (inside.snoc (.plain quotation backslash control)))
  | @escaped cs pre inside =>
    simp only [readChar] at h
    split_ifs at h with unit
    · obtain ⟨rfl, rfl⟩ := Prod.mk.inj (Option.some.inj h)
      subst unit
      have begun : Begun (.unit cs 4 0) (pre ++ '\\' :: 'u' :: []) :=
        .unit inside rfl (by decide) rfl
      exact .on (by simpa using begun)
    · obtain ⟨d, escape, same⟩ := Option.map_eq_some_iff.mp h
      obtain ⟨rfl, rfl⟩ := Prod.mk.inj same
      exact .on (by simpa using Begun.string (inside.snoc (.short escape)))
  | @unit cs pre ds missing n inside size wanting digits =>
    obtain ⟨d, digit, h⟩ := Option.bind_eq_some_iff.mp h
    have value := hexOn?_snoc digits digit
    have longer : (ds ++ [c]).length = ds.length + 1 := List.length_append
    split_ifs at h with last
    · obtain ⟨after, now, same⟩ := Option.map_eq_some_iff.mp h
      obtain ⟨rfl, rfl⟩ := Prod.mk.inj same
      exact leads_afterUnit inside ⟨by omega, value⟩ now
    · obtain ⟨rfl, rfl⟩ := Prod.mk.inj (Option.some.inj h)
      have begun : Begun (.unit cs (missing - 1) (n * 16 + d))
          (pre ++ '\\' :: 'u' :: (ds ++ [c])) := .unit inside (by omega) (by omega) value
      exact .on (by simpa using begun)
  | pair inside first isHigh =>
    simp only [readChar] at h
    split_ifs at h with backslash
    obtain ⟨rfl, rfl⟩ := Prod.mk.inj (Option.some.inj h)
    subst backslash
    exact .on (.pairEscaped inside first isHigh)
  | @pairEscaped cs pre ds high inside first isHigh =>
    simp only [readChar] at h
    split_ifs at h with unit
    obtain ⟨rfl, rfl⟩ := Prod.mk.inj (Option.some.inj h)
    subst unit
    have begun : Begun (.pairUnit cs high 4 0)
        (pre ++ '\\' :: 'u' :: ds ++ '\\' :: 'u' :: []) :=
      .pairUnit inside first isHigh rfl (by decide) rfl
    exact .on (by simpa using begun)
  | @pairUnit cs pre ds es high missing n inside first isHigh size wanting digits =>
    obtain ⟨d, digit, h⟩ := Option.bind_eq_some_iff.mp h
    have value := hexOn?_snoc digits digit
    have longer : (es ++ [c]).length = es.length + 1 := List.length_append
    split_ifs at h with last
    · obtain ⟨after, now, same⟩ := Option.map_eq_some_iff.mp h
      obtain ⟨rfl, rfl⟩ := Prod.mk.inj same
      exact leads_afterPair inside first isHigh ⟨by omega, value⟩ now
    · obtain ⟨rfl, rfl⟩ := Prod.mk.inj (Option.some.inj h)
      have begun : Begun (.pairUnit cs high (missing - 1) (n * 16 + d))
          (pre ++ '\\' :: 'u' :: ds ++ '\\' :: 'u' :: (es ++ [c])) :=
        .pairUnit inside first isHigh (by omega) (by omega) value
      exact .on (by simpa using begun)

/-- What the end of the text completes is a spelling of the tokens found. -/
theorem spells_of_readEnd {state : Reading} {pre : List Char} {ts : List Token}
    (begun : Begun state pre) (h : readEnd state = some ts) : Spells ts pre := by
  have alone : ∀ {t : Token}, t.Writes pre → Spells [t] pre := by
    intro t written
    simpa using Spells.cons written (.done (List.forall_mem_nil _))
  cases begun with
  | blank =>
    obtain rfl := Option.some.inj h
    exact .done (by simp)
  | word =>
    obtain ⟨t, whole, rfl⟩ := Option.map_eq_some_iff.mp h
    exact alone (writes_of_wordToken whole)
  | number =>
    obtain ⟨v, number, rfl⟩ := Option.map_eq_some_iff.mp h
    obtain ⟨l, literal, value⟩ := number?_eq_some_iff.mp number
    exact alone (.number literal value)
  | _ => cases h

/-- What is read on from a state spells, with what has been read, the tokens found. -/
theorem spells_of_tokensFrom {state : Reading} {pre cs : List Char} {ts : List Token}
    (begun : Begun state pre) (h : tokensFrom state cs = some ts) : Spells ts (pre ++ cs) := by
  induction cs generalizing state pre ts with
  | nil => simpa using spells_of_readEnd begun h
  | cons c cs ih =>
    obtain ⟨⟨next, found⟩, read, h⟩ := Option.bind_eq_some_iff.mp h
    obtain ⟨ts', more, rfl⟩ := Option.map_eq_some_iff.mp h
    obtain ⟨pre', begun', leads⟩ := leads_readChar begun read
    exact leads cs ts' (ih begun' more)

/-- A text with tokens spells them. -/
theorem spells_of_tokens {cs : List Char} {ts : List Token} (h : tokens? cs = some ts) :
    Spells ts cs :=
  spells_of_tokensFrom .blank h

/-! ## Spellings yield their tokens -/

/-- Whether a token is a literal, which only what follows it ends. -/
def Token.isScalar : Token → Bool
  | .scalar _ => true
  | _ => false

/-- Whether no literal comes directly behind another. -/
def Separate (ts : List Token) : Prop :=
  ts.IsChain fun t u => t.isScalar = true → u.isScalar = false

theorem tokensFrom_gap {gap : List Char} (blank : ∀ c ∈ gap, isSpace c = true) (rest : List Char) :
    tokensFrom .blank (gap ++ rest) = tokensFrom .blank rest := by
  induction gap with
  | nil => rfl
  | cons c gap ih =>
    have skip : readChar .blank c = some (.blank, []) := by
      simp [readChar, fresh, blank c List.mem_cons_self]
    rw [List.cons_append, tokensFrom_silent skip,
      ih fun d hd => blank d (List.mem_cons_of_mem c hd)]

/-- Digits of a code unit are read to its value; `state` holds how many are missing and the value
so far, and `after` is where a complete unit leads. -/
theorem tokensFrom_hex (state : Nat → Nat → Reading) {after : Nat → Option Reading}
    (read : ∀ missing value c, readChar (state missing value) c =
      (digitValue? 16 c).bind fun d =>
        if missing ≤ 1 then (after (value * 16 + d)).map (·, [])
        else some (state (missing - 1) (value * 16 + d), []))
    {ds : List Char} {value n : Nat} (nonempty : ds ≠ []) (digits : hexOn? value ds = some n)
    (rest : List Char) :
    tokensFrom (state ds.length value) (ds ++ rest) = (after n).bind (tokensFrom · rest) := by
  induction ds generalizing value with
  | nil => exact absurd rfl nonempty
  | cons d ds ih =>
    simp only [hexOn?, List.foldlM_cons, Option.bind_eq_bind, Option.bind_eq_some_iff,
      Option.map_eq_some_iff] at digits
    obtain ⟨_, ⟨k, digit, rfl⟩, more⟩ := digits
    rw [List.cons_append]
    cases ds with
    | nil =>
      obtain rfl : value * 16 + k = n := by simpa using more
      simp only [tokensFrom, read, digit, Option.bind_some, List.length_singleton, Nat.le_refl,
        if_true, List.nil_append]
      cases after (value * 16 + k) with
      | none => rfl
      | some next => simp
    | cons e ds =>
      have next : readChar (state (d :: e :: ds).length value) d =
          some (state (e :: ds).length (value * 16 + k), []) := by
        rw [read, digit]
        rfl
      rw [tokensFrom_silent next, ih (by simp) more]

theorem tokensFrom_unitDigits {ds : List Char} {n : Nat} (unit : IsUnit ds n)
    (cs rest : List Char) :
    tokensFrom (.string cs) ('\\' :: 'u' :: ds ++ rest) =
      (afterUnit cs n).bind (tokensFrom · rest) := by
  have nonempty : ds ≠ [] := by
    rintro rfl
    cases unit.1
  rw [List.cons_append, tokensFrom_silent rfl, List.cons_append, tokensFrom_silent rfl]
  exact unit.1 ▸ tokensFrom_hex (.unit cs) (fun _ _ _ => rfl) nonempty unit.2 rest

theorem tokensFrom_pairDigits {ds : List Char} {n : Nat} (unit : IsUnit ds n)
    (cs : List Char) (high : Nat) (rest : List Char) :
    tokensFrom (.pair cs high) ('\\' :: 'u' :: ds ++ rest) =
      (afterPair cs high n).bind (tokensFrom · rest) := by
  have nonempty : ds ≠ [] := by
    rintro rfl
    cases unit.1
  rw [List.cons_append, tokensFrom_silent rfl, List.cons_append, tokensFrom_silent rfl]
  exact unit.1 ▸ tokensFrom_hex (.pairUnit cs high) (fun _ _ _ => rfl) nonempty unit.2 rest

/-- However a character is written inside a string, it is read. -/
theorem tokensFrom_writesChar {c : Char} {part : List Char} (written : WritesChar c part)
    (cs rest : List Char) :
    tokensFrom (.string cs) (part ++ rest) = tokensFrom (.string (c :: cs)) rest := by
  cases written with
  | plain quotation backslash control =>
    have read : readChar (.string cs) c = some (.string (c :: cs), []) := by
      simp [readChar, quotation, backslash, control]
    rw [List.singleton_append, tokensFrom_silent read]
  | @short e escape =>
    have notUnit : e ≠ 'u' := by
      rintro rfl
      cases escape
    have read : readChar (.escaped cs) e = some (.string (c :: cs), []) := by
      simp [readChar, notUnit, escape]
    rw [List.cons_append, tokensFrom_silent rfl, List.singleton_append, tokensFrom_silent read]
  | unit value =>
    obtain ⟨high, low⟩ := not_surrogate c
    rw [tokensFrom_unitDigits value]
    simp [afterUnit, high, low]
  | pair first second isHigh isLow value =>
    rw [List.append_assoc, tokensFrom_unitDigits first]
    simp only [afterUnit, isHigh, if_true, Option.bind_some]
    rw [tokensFrom_pairDigits second]
    simp [afterPair, isLow, value]

/-- The characters of a string are read one after the other. -/
theorem tokensFrom_parts {ds : List Char} {parts : List (List Char)}
    (written : List.Forall₂ WritesChar ds parts) (cs rest : List Char) :
    tokensFrom (.string cs) (parts.flatten ++ rest) =
      tokensFrom (.string (ds.reverse ++ cs)) rest := by
  induction written generalizing cs with
  | nil => rfl
  | cons first _ ih =>
    rw [List.flatten_cons, List.append_assoc, tokensFrom_writesChar first, ih]
    simp

/-- A number literal is read whole. -/
theorem tokensFrom_literal {l : Literal} {v : Json} {cs rest : List Char} (literal : l.Writes cs)
    (value : l.value? = some v) (apart : Apart rest) :
    tokensFrom .blank (cs ++ rest) = (tokensFrom .blank rest).map (.scalar v :: ·) := by
  obtain ⟨c, ds, rfl, start⟩ := literal.head
  have first : fresh c = some (.number [c], []) := by
    rcases start with rfl | digit
    · rfl
    · exact fresh_of_isDigit digit
  have number : number? (c :: ds) = some v := number?_eq_some_iff.mpr ⟨l, literal, value⟩
  refine tokensFrom_gathered first (fun cs d digit => ?_)
    (List.forall_mem_cons.mp literal.inNumber).2 ?_ fun d hd => ?_
  · simp [readChar, digit]
  · simp only [readEnd, List.reverse_reverse, number, Option.map_some]
  · simp only [readChar, (apart d hd).2, Bool.false_eq_true, if_false, List.reverse_reverse, number,
      Option.map_some]

/-- A token is read however it is written, a literal if what follows does not go on with it. -/
theorem tokensFrom_writes {t : Token} {cs rest : List Char} (written : t.Writes cs)
    (apart : t.isScalar = true → Apart rest) :
    tokensFrom .blank (cs ++ rest) = (tokensFrom .blank rest).map (t :: ·) := by
  cases written with
  | openObject | closeObject | openArray | closeArray | comma | colon =>
    exact tokensFrom_sign rfl rest
  | @text s parts each =>
    have last : readChar (.string s.toList.reverse) '"' = some (.blank, [.text s]) := by
      simp [readChar]
    have first : readChar .blank '"' = some (.string [], []) := rfl
    rw [List.cons_append, List.cons_append, tokensFrom_silent first,
      List.append_assoc, tokensFrom_parts each, List.append_nil, List.singleton_append,
      tokensFrom_cons last]
    rfl
  | null | true | false => exact tokensFrom_word rfl rfl rfl (apart rfl)
  | number literal value => exact tokensFrom_literal literal value (apart rfl)

/-- Neither a gap nor a token that is no literal goes on with a word or number. -/
theorem Spells.apart {ts : List Token} {cs : List Char} (h : Spells ts cs)
    (first : ∀ t ∈ ts.head?, t.isScalar = false) : Apart cs := by
  have gaps : ∀ c, isSpace c = true → inWord c = false ∧ inNumber c = false := by
    intro c gap
    simp only [isSpace, Text.isGap, Bool.or_eq_true, decide_eq_true_eq] at gap
    rcases gap with ((rfl | rfl) | rfl) | rfl <;> decide
  intro c hc
  cases h with
  | done blank => exact gaps c (blank c (List.mem_of_mem_head? hc))
  | @token t ts gap cs rest blank written more =>
    cases gap with
    | cons d gap =>
      obtain rfl : d = c := by simpa using hc
      exact gaps d (blank d List.mem_cons_self)
    | nil =>
      have sign := first t rfl
      cases written with
      | null | true | false | number => cases sign
      | _ =>
        obtain rfl := Option.some.inj hc
        decide

/-- The tokens of a spelling in which no two literals touch. -/
theorem tokens?_of_spells {ts : List Token} {cs : List Char} (h : Spells ts cs)
    (separate : Separate ts) : tokens? cs = some ts := by
  unfold tokens?
  induction h with
  | done blank =>
    have all := tokensFrom_gap blank []
    rw [List.append_nil] at all
    exact all
  | @token t ts gap cs rest blank written more ih =>
    obtain ⟨behind, separate⟩ := List.isChain_cons.mp separate
    have apart : t.isScalar = true → Apart rest :=
      fun scalar => more.apart fun u hu => behind u hu scalar
    rw [tokensFrom_gap blank, tokensFrom_writes written apart, ih separate]
    rfl

/-! ## The tokens of values -/

theorem Separate.cons {t : Token} {ts : List Token} (other : t.isScalar = false)
    (rest : Separate ts) : Separate (t :: ts) :=
  List.isChain_cons.mpr ⟨fun _ _ scalar => absurd scalar (by simp [other]), rest⟩

mutual

/-- The literals of a value stand apart in front of a token that is no literal. -/
theorem separate_tokens : ∀ {v : Json} {t : Token} {ts : List Token}, t.isScalar = false →
    Separate (t :: ts) → Separate (tokens v ++ t :: ts)
  | .null, _, _, first, rest | .bool _, _, _, first, rest | .int _, _, _, first, rest
  | .float _, _, _, first, rest => .cons_cons (fun _ => first) rest
  | .str _, _, _, _, rest => .cons rfl rest
  | .arr items, t, ts, _, rest => by
    rw [tokens, List.cons_append, List.cons_append, List.append_assoc, List.singleton_append]
    exact .cons rfl (separate_tokensItems rfl (.cons rfl rest))
  | .obj members, t, ts, _, rest => by
    rw [tokens, List.cons_append, List.cons_append, List.append_assoc, List.singleton_append]
    exact .cons rfl (separate_tokensMembers rfl (.cons rfl rest))

theorem separate_tokensItems : ∀ {items : List Json} {t : Token} {ts : List Token},
    t.isScalar = false → Separate (t :: ts) → Separate (tokensItems items ++ t :: ts)
  | [], _, _, _, rest => rest
  | v :: items, t, ts, first, rest => by
    rw [tokensItems_cons, List.append_assoc]
    split
    · exact separate_tokens first rest
    · exact separate_tokens rfl (.cons rfl (separate_tokensItems first rest))

theorem separate_tokensMembers : ∀ {members : List (String × Json)} {t : Token} {ts : List Token},
    t.isScalar = false → Separate (t :: ts) → Separate (tokensMembers members ++ t :: ts)
  | [], _, _, _, rest => rest
  | (k, v) :: members, t, ts, first, rest => by
    rw [tokensMembers_cons, List.cons_append, List.cons_append, List.append_assoc]
    refine .cons rfl (.cons rfl ?_)
    split
    · exact separate_tokens first rest
    · exact separate_tokens rfl (.cons rfl (separate_tokensMembers first rest))

end

/-- No two literals of a value touch. -/
theorem separate_tokens_alone (v : Json) : Separate (tokens v) :=
  (separate_tokens (v := v) (t := .comma) rfl (List.isChain_singleton _)).left_of_append

end LanguageClient.Json
