import LanguageClient.Proofs.Files.Parents
import LanguageClient.Proofs.Uri.Documents

/-!
# The path behind a URI

The URI of an absolute path is plain text in which nothing has another meaning than the bytes of
the path, so that it names a path with the same components, if none of them leads upwards.
-/

set_option autoImplicit false

namespace LanguageClient

/-! ## Encoded text -/

namespace Percent

/-- A character of encoded text is visible ASCII and has no role in a URI. -/
def Inert (c : Char) : Prop :=
  0x20 < c.toNat ∧ c.toNat < 0x7F ∧ c ≠ '/' ∧ c ≠ '\\' ∧ c ≠ '?' ∧ c ≠ '#'

instance (c : Char) : Decidable (Inert c) := inferInstanceAs (Decidable (_ ∧ _))

theorem inert_of_mem_encode {bytes : Bytes} {c : Char} (member : c ∈ encode bytes) : Inert c := by
  have all : ∀ m : Fin 256, (encodeByte (UInt8.ofNat m)).all (decide <| Inert ·) = true := by
    decide +kernel
  obtain ⟨b, -, among⟩ := List.mem_flatMap.mp member
  rw [← UInt8.ofNat_toNat (x := b)] at among
  exact of_decide_eq_true (List.all_eq_true.mp (all ⟨b.toNat, b.toNat_lt⟩) c among)

end Percent

namespace Uri

/-- Text that spells only dots is decoded to these dots. -/
theorem decode_of_dots? {s : List Char} {n : Nat} (h : dots? s = some n) :
    Percent.decode s = List.replicate n Path.dot := by
  induction s using dots?.induct generalizing n with
  | case1 =>
    obtain rfl : 0 = n := Option.some.inj h
    rfl
  | case2 rest ih =>
    obtain ⟨m, more, rfl⟩ := Option.map_eq_some_iff.mp h
    rw [Percent.decode_cons (by decide), ih more]
    rfl
  | case3 c rest e ih =>
    rw [dots?, if_pos e] at h
    obtain ⟨m, more, rfl⟩ := Option.map_eq_some_iff.mp h
    have sign : Percent.decode ('%' :: '2' :: c :: rest) = Path.dot :: Percent.decode rest := by
      rcases e with rfl | rfl <;> rfl
    rw [sign, ih more]
    rfl
  | case4 c rest e =>
    rw [dots?, if_neg e] at h
    cases h
  | case5 s empty dot sign =>
    rw [dots?.eq_4 s empty dot sign] at h
    cases h

/-- A name that is encoded spells no dot segment. -/
theorem dots?_encode {name : Bytes} (single : name ≠ [Path.dot])
    (double : name ≠ [Path.dot, Path.dot]) :
    dots? (Percent.encode name) ≠ some 1 ∧ dots? (Percent.encode name) ≠ some 2 := by
  constructor
  · intro h
    have spelled := decode_of_dots? h
    rw [Percent.decode_encode] at spelled
    exact single spelled
  · intro h
    have spelled := decode_of_dots? h
    rw [Percent.decode_encode] at spelled
    exact double spelled

/-! ## Reading a text without special characters -/

/-- Nothing is dropped from a text without blanks and controls. -/
theorem clean_of_visible {cs : List Char} (visible : ∀ c ∈ cs, 0x20 < c.toNat) : clean cs = cs := by
  have front : ∀ ds : List Char, (∀ c ∈ ds, 0x20 < c.toNat) →
      ds.dropWhile (fun c => decide (c.toNat ≤ 0x20)) = ds := by
    intro ds visible
    cases ds with
    | nil => rfl
    | cons c ds =>
      have first := visible c List.mem_cons_self
      rw [List.dropWhile_cons_of_neg (by simpa using first)]
  have inside : cs.filter (fun c => decide (c ≠ '\t' ∧ c ≠ '\n' ∧ c ≠ '\r')) = cs := by
    rw [List.filter_eq_self]
    intro c member
    have first := visible c member
    rw [decide_eq_true_eq]
    refine ⟨?_, ?_, ?_⟩ <;> rintro rfl <;> exact absurd first (by decide)
  unfold clean
  have back := front cs.reverse fun c member => visible c (List.mem_reverse.mp member)
  simp only [front cs visible, back, List.reverse_reverse, inside]

theorem segments_of_free {kind : Kind} {text : List Char}
    (free : ∀ c ∈ text, isSlash kind c = false) : segments kind text = [text] := by
  induction text with
  | nil => rfl
  | cons c text ih =>
    rw [segments, if_neg (by simp [free c List.mem_cons_self]),
      ih fun d member => free d (List.mem_cons_of_mem _ member)]

/-- What stands in front of a separator is a segment. -/
theorem segments_append_separator {kind : Kind} {text : List Char}
    (free : ∀ c ∈ text, isSlash kind c = false) (rest : List Char) :
    segments kind (text ++ '/' :: rest) = text :: segments kind rest := by
  induction text with
  | nil => rfl
  | cons c text ih =>
    rw [List.cons_append, segments, if_neg (by simp [free c List.mem_cons_self]),
      ih fun d member => free d (List.mem_cons_of_mem _ member)]

/-- Behind other segments, segments that are no dots stay as they are. -/
theorem resolve_of_plain {kind : Kind} {done ss : List (List Char)} (behind : done ≠ [])
    (plain : ∀ s ∈ ss, dots? s ≠ some 1 ∧ dots? s ≠ some 2) :
    resolve kind done ss = done.reverse ++ ss := by
  induction ss generalizing done with
  | nil => simp [resolve]
  | cons s ss ih =>
    obtain ⟨single, double⟩ := plain s List.mem_cons_self
    have later := ih (List.cons_ne_nil s done) fun t member =>
      plain t (List.mem_cons_of_mem _ member)
    rw [resolve]
    split
    · contradiction
    · contradiction
    · rw [if_neg (by simp [behind]), later]
      simp

end Uri

/-! ## Paths of names -/

namespace Path

/-- Whether bytes are a proper name: they are the only part that they have, and that part is
neither empty nor one of the dots. -/
structure IsName (name : Bytes) : Prop where
  ne_nil : name ≠ []
  ne_dot : name ≠ [dot]
  ne_dots : name ≠ [dot, dot]
  free : separator ∉ name

theorem IsName.component? {name : Bytes} (h : IsName name) :
    component? name = some (.normal name) := by
  rw [Path.component?, if_neg (by simp [h.ne_nil, h.ne_dot]), if_neg h.ne_dots]

theorem exists_map_normal {cs : List Component}
    (h : ∀ c ∈ cs, ∃ name, c = .normal name ∧ IsName name) :
    ∃ names : List Bytes, cs = names.map .normal ∧ ∀ name ∈ names, IsName name := by
  induction cs with
  | nil => exact ⟨[], rfl, by simp⟩
  | cons c cs ih =>
    obtain ⟨name, rfl, proper⟩ := h c List.mem_cons_self
    obtain ⟨names, rfl, others⟩ := ih fun d member => h d (List.mem_cons_of_mem _ member)
    exact ⟨name :: names, rfl, List.forall_mem_cons.mpr ⟨proper, others⟩⟩

/-- Without a step upwards the components of an absolute path are the root and names. -/
theorem exists_names {p : Path} (rooted : p.isAbsolute = true) (level : .parent ∉ p.components) :
    ∃ names : List Bytes, p.components = .root :: names.map .normal ∧
      ∀ name ∈ names, IsName name := by
  have components : p.components = .root :: (parts p.bytes).filterMap Path.component? := by
    rw [Path.components, if_pos rooted]
    rfl
  have named : ∀ c ∈ (parts p.bytes).filterMap Path.component?,
      ∃ name, c = .normal name ∧ IsName name := by
    intro c member
    -- A part that counts is a name unless it leads upwards.
    have other : c ≠ .parent := by
      rintro rfl
      exact level (components ▸ List.mem_cons_of_mem _ member)
    obtain ⟨part, among, is⟩ := List.mem_filterMap.mp member
    unfold Path.component? at is
    split at is
    · cases is
    next counts =>
      split at is
      · exact absurd (Option.some.inj is).symm other
      next proper =>
        refine ⟨part, (Option.some.inj is).symm, ?_⟩
        exact ⟨fun none => counts (.inl none), fun one => counts (.inr one), proper,
          separator_not_mem among⟩
  obtain ⟨names, are, proper⟩ := exists_map_normal named
  exact ⟨names, by rw [components, are], proper⟩

/-- The parts of names that stand behind separators are these names. -/
theorem parts_flatMap_separator {names : List Bytes} (h : ∀ name ∈ names, IsName name) :
    parts (names.flatMap (separator :: ·)) = [] :: names := by
  induction names using List.reverseRecOn with
  | nil => rfl
  | append_singleton names name ih =>
    have before := ih fun n member => h n (List.mem_append_left _ member)
    have last := (h name (by simp)).free
    rw [List.flatMap_append, List.flatMap_singleton, parts_append_separator, before,
      parts_of_not_mem last, List.cons_append]

/-- Bytes in which names stand behind separators have these components, with or without a
separator at the end. -/
theorem components_of_names {names : List Bytes} (h : ∀ name ∈ names, IsName name)
    {tail : Bytes} (ending : tail = [] ∧ names ≠ [] ∨ tail = [separator]) :
    components ⟨names.flatMap (separator :: ·) ++ tail⟩ = .root :: names.map .normal := by
  have rooted : isAbsolute ⟨names.flatMap (separator :: ·) ++ tail⟩ = true := by
    rcases ending with ⟨rfl, some⟩ | rfl
    · obtain ⟨first, others, rfl⟩ := List.exists_cons_of_ne_nil some
      rfl
    · cases names <;> rfl
  have kept : names.filterMap component? = names.map .normal := by
    rw [← List.filterMap_eq_map]
    exact List.filterMap_congr fun name member => (h name member).component?
  have divided : (parts (names.flatMap (separator :: ·) ++ tail)).filterMap component? =
      names.map .normal := by
    rcases ending with ⟨rfl, -⟩ | rfl
    · rw [List.append_nil, parts_flatMap_separator h]
      exact kept
    · -- The separator at the end gives one more part, an empty one that does not count.
      rw [parts_append_separator, parts_flatMap_separator h, List.filterMap_append,
        List.filterMap_cons_none rfl, kept]
      exact List.append_nil _
  rw [components, if_pos rooted, divided]
  rfl

end Path

namespace Uri

/-! ## Reading the URI of a path -/

variable {names : List Bytes}

theorem safe_segmentText {c : Char} {component : Path.Component}
    (member : c ∈ segmentText component) :
    0x20 < c.toNat ∧ c.toNat < 0x7F ∧ isSlash .file c = false ∧ endsPath c = false := by
  cases component with
  | root | current => cases member
  | parent =>
    obtain rfl : c = '.' := by simpa [segmentText] using member
    decide
  | normal name =>
    obtain ⟨above, below, slash, backslash, query, fragment⟩ :=
      Percent.inert_of_mem_encode (show c ∈ Percent.encode name from member)
    exact ⟨above, below, by simp [isSlash, slash, backslash], by simp [endsPath, query, fragment]⟩

theorem safe_pathText {c : Char} {cs : List Path.Component} (member : c ∈ pathText cs) :
    0x20 < c.toNat ∧ c.toNat < 0x7F ∧ endsPath c = false := by
  obtain ⟨component, -, among⟩ := List.mem_flatMap.mp member
  rcases List.mem_cons.mp among with rfl | inside
  · decide
  · obtain ⟨above, below, -, path⟩ := safe_segmentText inside
    exact ⟨above, below, path⟩

/-- The segments of the text of components, behind the first separator. -/
theorem segments_pathText (c : Path.Component) (cs : List Path.Component) :
    segments .file (segmentText c ++ pathText cs) = (c :: cs).map segmentText := by
  induction cs generalizing c with
  | nil =>
    rw [pathText, List.flatMap_nil, List.append_nil]
    exact segments_of_free fun x member => (safe_segmentText member).2.2.1
  | cons d cs ih =>
    have next : pathText (d :: cs) = '/' :: (segmentText d ++ pathText cs) := rfl
    rw [next, segments_append_separator fun x member => (safe_segmentText member).2.2.1, ih]
    rfl

/-- The bytes of segments are their decoded texts behind separators, with a separator at the end
where the last one looks like the name of a drive. -/
theorem bytesOf_file {resolved kept : List (List Char)}
    (drop : resolved.dropWhile List.isEmpty = kept) (some : kept ≠ []) :
    ∃ tail, (tail = [] ∨ tail = [Path.separator]) ∧
      bytesOf .file resolved =
        kept.flatMap (fun s => Path.separator :: Percent.decode s) ++ tail := by
  obtain ⟨first, others, rfl⟩ := List.exists_cons_of_ne_nil some
  unfold bytesOf
  rw [if_pos rfl, drop]
  dsimp only
  split
  · split
    · exact ⟨_, .inr rfl, rfl⟩
    · exact ⟨_, .inl rfl, (List.append_nil _).symm⟩
  · exact ⟨_, .inl rfl, (List.append_nil _).symm⟩

/-- The text of names is resolved to these names. -/
theorem resolvedPath_pathText {name : Bytes} (h : ∀ n ∈ name :: names, Path.IsName n) :
    resolvedPath .file [[]] (segmentText (.normal name) ++ pathText (names.map .normal)) =
      [] :: (name :: names).map Percent.encode := by
  have inside : ∀ c ∈ segmentText (.normal name) ++ pathText (names.map .normal),
      (!endsPath c) = true := by
    intro c member
    have within : c ∈ pathText ((name :: names).map .normal) := List.mem_cons_of_mem '/' member
    simp [(safe_pathText within).2.2]
  rw [resolvedPath, List.takeWhile_eq_self_iff.mpr inside, segments_pathText,
    resolve_of_plain (List.cons_ne_nil _ _)]
  · simp [segmentText, Function.comp_def]
  · intro s member
    rw [← List.map_cons, List.map_map] at member
    obtain ⟨n, among, rfl⟩ := List.mem_map.mp member
    exact dots?_encode (h n among).ne_dot (h n among).ne_dots

/-- A text of visible characters that begins as the URI of a local file names the path behind. -/
theorem toPath?_file {path : List Char} (visible : ∀ c ∈ path, 0x20 < c.toNat) :
    toPath? (String.ofList ("file:///".toList ++ path)) =
      some ⟨bytesOf .file (resolvedPath .file [[]] path)⟩ := by
  have cleaned : clean ("file:///".toList ++ path) = "file:///".toList ++ path := by
    apply clean_of_visible
    intro c member
    rcases List.mem_append.mp member with front | behind
    · have plain : "file:///".toList.all (0x20 < ·.toNat) = true := rfl
      exact of_decide_eq_true (List.all_eq_true.mp plain c front)
    · exact visible c behind
  rw [toPath?, String.toList_ofList, cleaned]
  rfl

/-- The text of a path is a separator and visible characters behind it. -/
theorem wholeText_eq (cs : List Path.Component) :
    ∃ path, wholeText cs = '/' :: path ∧ ∀ c ∈ path, 0x20 < c.toNat ∧ c.toNat < 0x7F := by
  cases cs with
  | nil => exact ⟨[], rfl, by simp⟩
  | cons c cs =>
    refine ⟨segmentText c ++ pathText cs, rfl, fun x member => ?_⟩
    have within : x ∈ pathText (c :: cs) := List.mem_cons_of_mem '/' member
    exact ⟨(safe_pathText within).1, (safe_pathText within).2.1⟩

/-- The names of a path come back behind separators, and the root as a separator. -/
theorem toPath?_wholeText (h : ∀ name ∈ names, Path.IsName name) :
    ∃ tail, (tail = [] ∧ names ≠ [] ∨ tail = [Path.separator]) ∧
      toPath? (String.ofList ("file://".toList ++ wholeText (names.map .normal))) =
        some ⟨names.flatMap (Path.separator :: ·) ++ tail⟩ := by
  cases names with
  | nil =>
    have none : ∀ c ∈ ([] : List Char), 0x20 < c.toNat := by simp
    exact ⟨[Path.separator], .inr rfl, toPath?_file none⟩
  | cons name names =>
    -- The first separator belongs to the front of the URI, and the segments begin behind it.
    have front : "file://".toList ++ wholeText ((name :: names).map .normal) =
        "file:///".toList ++ (segmentText (.normal name) ++ pathText (names.map .normal)) := rfl
    have visible : ∀ c ∈ segmentText (.normal name) ++ pathText (names.map .normal),
        0x20 < c.toNat := by
      intro c member
      have within : c ∈ pathText ((name :: names).map .normal) := List.mem_cons_of_mem '/' member
      exact (safe_pathText within).1
    have named : Percent.encode name ≠ [] := by
      have proper := h name List.mem_cons_self
      exact segmentText_ne_nil (.normal proper.ne_nil proper.ne_dots)
    have drop : ([] :: (name :: names).map Percent.encode).dropWhile List.isEmpty =
        (name :: names).map Percent.encode := by
      rw [List.dropWhile_cons_of_pos rfl, List.map_cons,
        List.dropWhile_cons_of_neg (by simpa using named)]
    obtain ⟨tail, ending, bytes⟩ := bytesOf_file drop (List.cons_ne_nil _ _)
    refine ⟨tail, ending.imp_left fun none => ⟨none, List.cons_ne_nil _ _⟩, ?_⟩
    rw [front, toPath?_file visible, resolvedPath_pathText h, bytes, List.flatMap_map]
    simp only [Percent.decode_encode]

/-- The URI of an absolute path without steps upwards names a path with the same components. -/
theorem toPath?_ofPath? {p : Path} (rooted : p.isAbsolute = true)
    (level : .parent ∉ p.components) {uri : String} (is : ofPath? p = some uri) :
    ∃ back, toPath? uri = some back ∧ back.components = p.components := by
  obtain ⟨names, components, proper⟩ := Path.exists_names rooted level
  obtain ⟨tail, ending, named⟩ := toPath?_wholeText proper
  rw [ofPath?_eq components] at is
  refine ⟨_, Option.some.inj is ▸ named, ?_⟩
  rw [Path.components_of_names proper ending, components]

/-- The URI of an absolute path begins with `file:///` and is ASCII. -/
theorem ofPath?_text {p : Path} (rooted : p.isAbsolute = true) :
    ∃ uri, ofPath? p = some uri ∧ "file:///".toList <+: uri.toList ∧
      ∀ c ∈ uri.toList, c.toNat < 128 := by
  obtain ⟨inner, is, -⟩ := Path.components_of_isAbsolute rooted
  obtain ⟨path, text, visible⟩ := wholeText_eq inner
  have whole : ofPath? p = some (String.ofList ("file:///".toList ++ path)) := by
    rw [ofPath?_eq is, text]
    rfl
  have chars : (String.ofList ("file:///".toList ++ path)).toList = "file:///".toList ++ path :=
    String.toList_ofList
  refine ⟨_, whole, ?_⟩
  rw [chars]
  refine ⟨List.prefix_append _ path, fun c member => ?_⟩
  rcases List.mem_append.mp member with front | behind
  · have plain : "file:///".toList.all (·.toNat < 128) = true := rfl
    exact of_decide_eq_true (List.all_eq_true.mp plain c front)
  · exact (visible c behind).2.trans (by decide)

theorem ofPathIn_of_isAbsolute (folder : Path) {p : Path} (rooted : p.isAbsolute = true)
    {uri : String} (is : ofPath? p = some uri) : ofPathIn folder p = .ok uri := by
  simp only [ofPathIn, Path.join_of_isAbsolute folder rooted, is]

/-- Documents and URIs correspond.  Whatever the bytes of absolute paths are, the paths have URIs,
and one URI exactly where they have the same components.  The URI leads back to a path with the
same components if none of them leads upwards; a name that reads like a drive, such as `c|`, is
no exception, as the separator in front of it already counts as a segment. -/
theorem documents_correspond (folder : Path) {p q : Path} (hp : p.isAbsolute = true)
    (hq : q.isAbsolute = true) :
    (ofPathIn folder p = ofPathIn folder q ↔ p.components = q.components) ∧
      ∃ uri, ofPathIn folder p = .ok uri ∧ "file:///".toList <+: uri.toList ∧
        (∀ c ∈ uri.toList, c.toNat < 128) ∧
        (.parent ∉ p.components →
          ∃ back, toPath? uri = some back ∧ back.components = p.components) := by
  obtain ⟨uri, is, front, ascii⟩ := ofPath?_text hp
  obtain ⟨other, are, -⟩ := ofPath?_text hq
  have whole := ofPathIn_of_isAbsolute folder hp is
  refine ⟨?_, uri, whole, front, ascii, fun level => toPath?_ofPath? hp level is⟩
  rw [whole, ofPathIn_of_isAbsolute folder hq are, ← Path.same_iff, ← ofPath?_eq_iff hp hq, is, are,
    Except.ok.injEq, Option.some.injEq]

/-- The path `/c|/%2F?` with a byte behind that no text has, and the same path written with more
separators and a dot. -/
theorem documents_correspond_drive :
    Path.components ⟨[47, 99, 124, 47, 37, 50, 70, 63, 255]⟩ =
        [.root, .normal [99, 124], .normal [37, 50, 70, 63, 255]] ∧
      ofPathIn ⟨[]⟩ ⟨[47, 99, 124, 47, 37, 50, 70, 63, 255]⟩ =
        ofPathIn ⟨[]⟩ ⟨[47, 46, 47, 99, 124, 47, 47, 37, 50, 70, 63, 255, 47]⟩ ∧
      ∃ uri back, ofPathIn ⟨[]⟩ ⟨[47, 99, 124, 47, 37, 50, 70, 63, 255]⟩ = .ok uri ∧
        toPath? uri = some back ∧
        back.components = [.root, .normal [99, 124], .normal [37, 50, 70, 63, 255]] := by
  have components : Path.components ⟨[47, 99, 124, 47, 37, 50, 70, 63, 255]⟩ =
      [.root, .normal [99, 124], .normal [37, 50, 70, 63, 255]] := by decide
  obtain ⟨alike, uri, is, -, -, returns⟩ :=
    documents_correspond ⟨[]⟩ (p := ⟨[47, 99, 124, 47, 37, 50, 70, 63, 255]⟩)
      (q := ⟨[47, 46, 47, 99, 124, 47, 47, 37, 50, 70, 63, 255, 47]⟩) rfl rfl
  obtain ⟨back, named, same⟩ := returns (by decide)
  exact ⟨components, alike.mpr (by decide), uri, back, is, named, same.trans components⟩

end Uri

end LanguageClient
