import LanguageClient.Uri.FilePath

/-!
# URIs tell documents apart

A segment of a URI is decoded to the bytes it was written for and holds no separator.  So
two absolute paths have one URI exactly where they have the same components.
-/

set_option autoImplicit false

namespace LanguageClient

namespace Percent

/-- A digit is read as the number it was written for, and it is neither sign nor separator. -/
theorem hexDigit_spec {n : Nat} (small : n < 16) :
    Number.digitValue? 16 (hexDigit n) = some n ∧ hexDigit n ≠ '/' := by
  have all : ∀ m : Fin 16, Number.digitValue? 16 (hexDigit m) = some m.val ∧ hexDigit m ≠ '/' := by
    decide
  exact all ⟨n, small⟩

theorem hexDigit_mod (n : Nat) : hexDigit (n % 16) = hexDigit n := by
  rw [hexDigit, hexDigit, Nat.mod_mod]

/-- A byte that stands for itself is a character of one byte that has no role in a URI. -/
theorem isPlain_spec {b : UInt8} (plain : isPlain b = true) :
    String.utf8EncodeChar (Char.ofNat b.toNat) = [b] ∧
      Char.ofNat b.toNat ≠ '%' ∧ Char.ofNat b.toNat ≠ '/' := by
  have all : ∀ m : Fin 256, isPlain (UInt8.ofNat m) = true →
      String.utf8EncodeChar (Char.ofNat (UInt8.ofNat m).toNat) = [UInt8.ofNat m] ∧
        Char.ofNat (UInt8.ofNat m).toNat ≠ '%' ∧ Char.ofNat (UInt8.ofNat m).toNat ≠ '/' := by
    decide +kernel
  have named := all ⟨b.toNat, b.toNat_lt⟩
  rw [UInt8.ofNat_toNat] at named
  exact named plain

theorem decode_cons {c : Char} (other : c ≠ '%') (rest : List Char) :
    decode (c :: rest) = String.utf8EncodeChar c ++ decode rest := by
  rw [decode]
  exact fun _ _ _ sign => absurd sign other

theorem decode_encodeByte (b : UInt8) (rest : List Char) :
    decode (encodeByte b ++ rest) = b :: decode rest := by
  by_cases plain : isPlain b = true
  · obtain ⟨one, sign, -⟩ := isPlain_spec plain
    rw [encodeByte, if_pos plain, List.singleton_append, decode_cons sign, one]
    rfl
  · have high : b.toNat / 16 < 16 := by
      have := b.toNat_lt
      omega
    have low : b.toNat % 16 < 16 := Nat.mod_lt _ (by decide)
    have value : b.toNat / 16 * 16 + b.toNat % 16 = b.toNat := by omega
    rw [encodeByte, if_neg plain, ← hexDigit_mod b.toNat]
    simp only [List.cons_append, List.nil_append, decode, (hexDigit_spec high).1,
      (hexDigit_spec low).1, value, UInt8.ofNat_toNat]

theorem decode_encode_append (bytes : Bytes) (rest : List Char) :
    decode (encode bytes ++ rest) = bytes ++ decode rest := by
  induction bytes with
  | nil => rfl
  | cons b bytes ih =>
    have step : encode (b :: bytes) = encodeByte b ++ encode bytes := rfl
    rw [step, List.append_assoc, decode_encodeByte, ih, List.cons_append]

/-- A segment is decoded to the bytes that it was written for. -/
@[simp] theorem decode_encode (bytes : Bytes) : decode (encode bytes) = bytes := by
  have whole := decode_encode_append bytes []
  rwa [List.append_nil, decode, List.append_nil] at whole

theorem encode_inj {a b : Bytes} (h : encode a = encode b) : a = b := by
  rw [← decode_encode a, h, decode_encode]

theorem slash_not_mem_encode (bytes : Bytes) : '/' ∉ encode bytes := by
  intro member
  obtain ⟨b, -, among⟩ := List.mem_flatMap.mp member
  by_cases plain : isPlain b = true
  · rw [encodeByte, if_pos plain, List.mem_singleton] at among
    exact (isPlain_spec plain).2.2 among.symm
  · have high : b.toNat / 16 < 16 := by
      have := b.toNat_lt
      omega
    have low : b.toNat % 16 < 16 := Nat.mod_lt _ (by decide)
    rw [encodeByte, if_neg plain, ← hexDigit_mod b.toNat] at among
    simp only [List.mem_cons, List.not_mem_nil, or_false] at among
    rcases among with sign | first | second
    · exact absurd sign (by decide)
    · exact (hexDigit_spec high).2 first.symm
    · exact (hexDigit_spec low).2 second.symm

end Percent

namespace Path

/-- Components behind the front, whose texts a URI joins: parents and proper names. -/
inductive Component.Inner : Component → Prop
  | parent : Inner .parent
  | normal {name : Bytes} (named : name ≠ []) (proper : name ≠ [dot, dot]) : Inner (.normal name)

theorem Component.inner_of_component? {part : Bytes} {c : Component}
    (h : component? part = some c) : c.Inner := by
  unfold component? at h
  split at h
  · cases h
  next counts =>
    split at h
    · cases h
      exact .parent
    next proper =>
      cases h
      exact .normal (fun none => counts (.inl none)) proper

/-- The components of an absolute path are the root and what is inside. -/
theorem components_of_isAbsolute {p : Path} (rooted : p.isAbsolute = true) :
    ∃ inner, p.components = .root :: inner ∧ ∀ c ∈ inner, c.Inner := by
  refine ⟨(parts p.bytes).filterMap component?, by rw [components, if_pos rooted]; rfl, ?_⟩
  intro c member
  obtain ⟨part, -, is⟩ := List.mem_filterMap.mp member
  exact Component.inner_of_component? is

theorem isAbsolute_iff_components {p : Path} :
    p.isAbsolute = true ↔ p.components.head? = some .root := by
  constructor
  · intro rooted
    obtain ⟨inner, is, -⟩ := components_of_isAbsolute rooted
    rw [is]
    rfl
  · intro front
    cases absolute : p.isAbsolute with
    | true => rfl
    | false =>
      have member : Component.root ∈ p.components := List.mem_of_head? front
      rw [components, absolute, List.mem_append] at member
      rcases member with first | inner
      · rw [if_neg Bool.false_ne_true] at first
        split at first <;> simp at first
      · obtain ⟨part, -, is⟩ := List.mem_filterMap.mp inner
        nomatch Component.inner_of_component? is

theorem same_iff {p q : Path} : p.same q = true ↔ p.components = q.components := beq_iff_eq

theorem same_congr_right {p q : Path} (h : p.same q = true) (r : Path) : r.same p = r.same q := by
  rw [Bool.eq_iff_iff, same_iff, same_iff, same_iff.mp h]

theorem same_congr_left {p q : Path} (h : p.same q = true) (r : Path) : p.same r = q.same r := by
  rw [Bool.eq_iff_iff, same_iff, same_iff, same_iff.mp h]

theorem join_of_isAbsolute (folder : Path) {p : Path} (rooted : p.isAbsolute = true) :
    folder.join p = p := if_pos rooted

/-- A path seen from an absolute folder is absolute. -/
theorem isAbsolute_join {folder : Path} (rooted : folder.isAbsolute = true) (p : Path) :
    (folder.join p).isAbsolute = true := by
  unfold join
  split
  · assumption
  · obtain ⟨bytes⟩ := folder
    cases bytes with
    | nil => cases rooted
    | cons b rest => split <;> exact rooted

end Path

namespace Uri

theorem slash_not_mem_segmentText (c : Path.Component) : '/' ∉ segmentText c := by
  cases c with
  | root | current => exact List.not_mem_nil
  | parent => decide
  | normal name => exact Percent.slash_not_mem_encode name

theorem segmentText_inj {c d : Path.Component} (hc : c.Inner) (hd : d.Inner)
    (h : segmentText c = segmentText d) : c = d := by
  have dots : ∀ {name : Bytes}, ['.', '.'] = Percent.encode name → name = [Path.dot, Path.dot] := by
    intro name is
    rw [← Percent.decode_encode name, ← is]
    decide
  cases hc with
  | parent =>
    cases hd with
    | parent => rfl
    | normal _ proper => exact absurd (dots h) proper
  | normal _ proper =>
    cases hd with
    | parent => exact absurd (dots h.symm) proper
    | normal => exact congrArg Path.Component.normal (Percent.encode_inj h)

theorem segmentText_ne_nil {c : Path.Component} (hc : c.Inner) : segmentText c ≠ [] := by
  cases hc with
  | parent => exact List.cons_ne_nil _ _
  | @normal name named =>
    intro none
    apply named
    rw [← Percent.decode_encode name, show Percent.encode name = [] from none]
    rfl

/-- The text of components, each behind a separator. -/
def pathText (cs : List Path.Component) : List Char :=
  cs.flatMap ('/' :: segmentText ·)

/-- What stands in front of the next separator is the text of one component. -/
theorem takeWhile_segmentText (c : Path.Component) (cs : List Path.Component) :
    (segmentText c ++ pathText cs).takeWhile (· ≠ '/') = segmentText c := by
  have clear : ∀ x ∈ segmentText c, decide (x ≠ '/') = true := by
    intro x member
    rw [decide_eq_true_eq]
    rintro rfl
    exact slash_not_mem_segmentText c member
  rw [List.takeWhile_append_of_pos clear]
  cases cs with
  | nil => exact List.append_nil _
  | cons => exact List.append_nil _

theorem pathText_inj {cs ds : List Path.Component} (hcs : ∀ c ∈ cs, c.Inner)
    (hds : ∀ d ∈ ds, d.Inner) (h : pathText cs = pathText ds) : cs = ds := by
  induction cs generalizing ds with
  | nil =>
    cases ds with
    | nil => rfl
    | cons => cases h
  | cons c cs ih =>
    cases ds with
    | nil => cases h
    | cons d ds =>
      have texts : segmentText c ++ pathText cs = segmentText d ++ pathText ds :=
        (List.cons.inj h).2
      -- The first text ends where the next separator stands, on both sides.
      have first : segmentText c = segmentText d := by
        rw [← takeWhile_segmentText c cs, texts, takeWhile_segmentText]
      have rest : pathText cs = pathText ds := by
        rw [first] at texts
        exact List.append_cancel_left texts
      rw [segmentText_inj (hcs c List.mem_cons_self) (hds d List.mem_cons_self) first,
        ih (fun c hc => hcs c (List.mem_cons_of_mem _ hc))
          (fun d hd => hds d (List.mem_cons_of_mem _ hd)) rest]

/-- The text of a path in a URI: the root alone is a separator. -/
def wholeText (cs : List Path.Component) : List Char :=
  if cs.isEmpty then ['/'] else pathText cs

theorem wholeText_inj {cs ds : List Path.Component} (hcs : ∀ c ∈ cs, c.Inner)
    (hds : ∀ d ∈ ds, d.Inner) (h : wholeText cs = wholeText ds) : cs = ds := by
  have alone : ∀ {es : List Path.Component}, (∀ e ∈ es, e.Inner) →
      ['/'] = wholeText es → es = [] := by
    intro es inner root
    cases es with
    | nil => rfl
    | cons e es =>
      -- No component behind the root has an empty text.
      have nothing : [] = segmentText e ++ pathText es := (List.cons.inj root).2
      exact absurd (List.append_eq_nil_iff.mp nothing.symm).1
        (segmentText_ne_nil (inner e List.mem_cons_self))
  cases cs with
  | nil => exact (alone hds h).symm
  | cons c cs =>
    cases ds with
    | nil => exact alone hcs h.symm
    | cons d ds => exact pathText_inj hcs hds h

theorem ofPath?_eq {p : Path} {inner : List Path.Component} (is : p.components = .root :: inner) :
    ofPath? p = some (String.ofList ("file://".toList ++ wholeText inner)) := by
  have rooted : p.isAbsolute = true := Path.isAbsolute_iff_components.mpr (by rw [is]; rfl)
  rw [ofPath?, if_pos rooted, is]
  rfl

/-- Absolute paths have one URI exactly where they have the same components. -/
theorem ofPath?_eq_iff {p q : Path} (hp : p.isAbsolute = true) (hq : q.isAbsolute = true) :
    ofPath? p = ofPath? q ↔ p.same q = true := by
  obtain ⟨inner, is, proper⟩ := Path.components_of_isAbsolute hp
  obtain ⟨others, are, apart⟩ := Path.components_of_isAbsolute hq
  rw [ofPath?_eq is, ofPath?_eq are, Path.same_iff, is, are]
  constructor
  · intro h
    have texts := String.ofList_inj.mp (Option.some.inj h)
    rw [wholeText_inj proper apart (List.append_cancel_left texts)]
  · intro h
    rw [(List.cons.inj h).2]

/-- Seen from an absolute folder every path has a URI. -/
theorem ofPathIn_of_rooted {folder : Path} (rooted : folder.isAbsolute = true) (p : Path) :
    ∃ uri, ofPathIn folder p = .ok uri := by
  obtain ⟨inner, is, -⟩ := Path.components_of_isAbsolute (Path.isAbsolute_join rooted p)
  simp only [ofPathIn, ofPath?_eq is]
  exact ⟨_, rfl⟩

/-- Seen from an absolute folder, paths have one URI exactly where they lead to the same
components. -/
theorem ofPathIn_eq_iff {folder : Path} (rooted : folder.isAbsolute = true) (p q : Path) :
    ofPathIn folder p = ofPathIn folder q ↔ (folder.join p).same (folder.join q) = true := by
  have hp := Path.isAbsolute_join rooted p
  have hq := Path.isAbsolute_join rooted q
  rw [← ofPath?_eq_iff hp hq]
  obtain ⟨inner, is, -⟩ := Path.components_of_isAbsolute hp
  obtain ⟨others, are, -⟩ := Path.components_of_isAbsolute hq
  simp only [ofPathIn, ofPath?_eq is, ofPath?_eq are]
  rw [Except.ok.injEq, Option.some.injEq]

end Uri

end LanguageClient
