import LanguageClient.Proofs.Json.Reading
import LanguageClient.Proofs.Json.Spelling

/-!
# What is read as a value

A text denotes a value, with the members of its objects as they are written, if it spells the
tokens of that value; it denotes no other.  Reading succeeds exactly on the texts that denote a
value nested no deeper than the limit, and gives that value tidied.  The main step is that the
stack of open levels always stands for the tokens read so far (`Stands`).
-/

set_option autoImplicit false

namespace LanguageClient.Json

/-! ## Values and their tokens -/

/-- No value begins with the end of an array. -/
theorem exists_tokens_eq_cons (v : Json) : ∃ t rest, tokens v = t :: rest ∧ t ≠ .closeArray := by
  cases v <;> exact ⟨_, _, rfl, by simp⟩

mutual

/-- A value and what comes behind it are known from the tokens. -/
theorem tokens_append_inj : ∀ {v w : Json} {ts us : List Token},
    tokens v ++ ts = tokens w ++ us → v = w ∧ ts = us
  | .null, w, _, _, h | .bool _, w, _, _, h | .int _, w, _, _, h | .float _, w, _, _, h
  | .str _, w, _, _, h => by
    cases w <;> simp_all [tokens]
  | .arr vs, w, ts, us, h => by
    cases w with
    | arr ws =>
      have inner : tokensItems vs ++ .closeArray :: ts = tokensItems ws ++ .closeArray :: us := by
        simpa [tokens] using h
      obtain ⟨same, rest⟩ := tokensItems_append_inj inner
      exact ⟨congrArg Json.arr same, rest⟩
    | _ => simp [tokens] at h
  | .obj vs, w, ts, us, h => by
    cases w with
    | obj ws =>
      have inner : tokensMembers vs ++ .closeObject :: ts =
          tokensMembers ws ++ .closeObject :: us := by
        simpa [tokens] using h
      obtain ⟨same, rest⟩ := tokensMembers_append_inj inner
      exact ⟨congrArg Json.obj same, rest⟩
    | _ => simp [tokens] at h

theorem tokensItems_append_inj : ∀ {vs ws : List Json} {ts us : List Token},
    tokensItems vs ++ .closeArray :: ts = tokensItems ws ++ .closeArray :: us → vs = ws ∧ ts = us
  | [], [], _, _, h => by simpa [tokensItems] using h
  | [], w :: ws, _, _, h => by
    obtain ⟨t, rest, begins, other⟩ := exists_tokens_eq_cons w
    rw [tokensItems_cons, begins] at h
    exact absurd (List.cons.inj h).1 other.symm
  | v :: vs, [], _, _, h => by
    obtain ⟨t, rest, begins, other⟩ := exists_tokens_eq_cons v
    rw [tokensItems_cons, begins] at h
    exact absurd (List.cons.inj h).1 other
  | v :: vs, w :: ws, _, _, h => by
    rw [tokensItems_cons, tokensItems_cons, List.append_assoc, List.append_assoc] at h
    obtain ⟨rfl, h⟩ := tokens_append_inj h
    cases vs <;> cases ws
    · exact ⟨rfl, by simpa using h⟩
    · simp at h
    · simp at h
    · obtain ⟨same, rest⟩ := tokensItems_append_inj (by simpa using h)
      exact ⟨congrArg (v :: ·) same, rest⟩

theorem tokensMembers_append_inj : ∀ {vs ws : List (String × Json)} {ts us : List Token},
    tokensMembers vs ++ .closeObject :: ts = tokensMembers ws ++ .closeObject :: us →
      vs = ws ∧ ts = us
  | [], [], _, _, h => by simpa [tokensMembers] using h
  | [], (_, _) :: _, _, _, h | (_, _) :: _, [], _, _, h => by
    rw [tokensMembers_cons] at h
    simp [tokensMembers] at h
  | (k, v) :: vs, (l, w) :: ws, _, _, h => by
    rw [tokensMembers_cons, tokensMembers_cons, List.cons_append, List.cons_append,
      List.cons_append, List.cons_append, List.append_assoc, List.append_assoc] at h
    obtain ⟨key, rest⟩ := List.cons.inj h
    obtain rfl := Token.text.inj key
    obtain ⟨rfl, h⟩ := tokens_append_inj (List.cons.inj rest).2
    cases vs <;> cases ws
    · exact ⟨rfl, by simpa using h⟩
    · simp at h
    · simp at h
    · obtain ⟨same, rest⟩ := tokensMembers_append_inj (by simpa using h)
      exact ⟨congrArg ((k, v) :: ·) same, rest⟩

end

/-- A value is known from its tokens. -/
theorem tokens_injective : Function.Injective tokens := by
  intro v w same
  exact (tokens_append_inj (congrArg (· ++ []) same)).1

/-! ## The tokens of what is still open -/

/-- The tokens of items that are complete, each with the comma behind it. -/
def tokensBefore (items : List Json) : List Token :=
  items.flatMap fun v => tokens v ++ [.comma]

/-- The tokens of members that are complete, each with the comma behind it. -/
def tokensBeforeKey (members : List (String × Json)) : List Token :=
  members.flatMap fun e => .text e.1 :: .colon :: tokens e.2 ++ [.comma]

theorem tokensItems_snoc (items : List Json) (v : Json) :
    tokensItems (items ++ [v]) = tokensBefore items ++ tokens v := by
  induction items with
  | nil => rfl
  | cons w items ih => simp [tokensItems_cons, ih, tokensBefore]

theorem tokensMembers_snoc (members : List (String × Json)) (key : String) (v : Json) :
    tokensMembers (members ++ [(key, v)]) =
      tokensBeforeKey members ++ .text key :: .colon :: tokens v := by
  induction members with
  | nil => simp [tokensMembers, tokensBeforeKey]
  | cons e members ih =>
    obtain ⟨k, w⟩ := e
    simp [tokensMembers_cons, ih, tokensBeforeKey]

theorem tokensBefore_snoc (items : List Json) (v : Json) :
    tokensBefore (items ++ [v]) = tokensBefore items ++ tokens v ++ [.comma] := by
  simp [tokensBefore]

theorem tokensBeforeKey_snoc (members : List (String × Json)) (key : String) (v : Json) :
    tokensBeforeKey (members ++ [(key, v)]) =
      tokensBeforeKey members ++ [.text key, .colon] ++ tokens v ++ [.comma] := by
  simp [tokensBeforeKey]

theorem depthItems_snoc (items : List Json) (v : Json) :
    depthItems (items ++ [v]) = max (depthItems items) (depth v) := by
  induction items with
  | nil => simp [depthItems]
  | cons w items ih => rw [List.cons_append, depthItems, ih, depthItems, Nat.max_assoc]

theorem depthMembers_snoc (members : List (String × Json)) (key : String) (v : Json) :
    depthMembers (members ++ [(key, v)]) = max (depthMembers members) (depth v) := by
  induction members with
  | nil => simp [depthMembers]
  | cons e members ih => rw [List.cons_append, depthMembers, ih, depthMembers, Nat.max_assoc]

/-- A further member is put to those before it. -/
theorem ofList_tidyMembers_snoc (members : List (String × Json)) (key : String) (v : Json) :
    Entries.ofList (tidyMembers (members ++ [(key, v)])) =
      Entries.put key (tidy v) (Entries.ofList (tidyMembers members)) := by
  rw [tidyMembers_append, Entries.ofList, List.foldl_append]
  rfl

/-! ## The stack -/

section Stack

variable {limit : Nat}

/-- Whether open levels stand for the tokens read so far, at a place where a value may start. -/
inductive Within (limit : Nat) : List Level → List Token → Prop
  | top : Within limit [] []
  | array {levels : List Level} {done : List Token} (items : List Json)
      (outer : Within limit levels done) (room : levels.length + (depthItems items + 1) ≤ limit) :
      Within limit (.array (tidyItems items).reverse :: levels)
        (done ++ .openArray :: tokensBefore items)
  | object {levels : List Level} {done : List Token} {members : List (String × Json)}
      {key : String} (outer : Within limit levels done)
      (room : levels.length + (depthMembers members + 1) ≤ limit) :
      Within limit (.object (Entries.ofList (tidyMembers members)) key :: levels)
        (done ++ .openObject :: tokensBeforeKey members ++ [.text key, .colon])

/-- Whether a state of reading stands for the tokens read so far. -/
inductive Stands (limit : Nat) : Parsing → List Token → Prop
  | value {levels : List Level} {done : List Token} (outer : Within limit levels done) :
      Stands limit ⟨levels, .value⟩ done
  | firstItem {levels : List Level} {done : List Token} (outer : Within limit levels done)
      (room : levels.length + 1 ≤ limit) :
      Stands limit ⟨.array [] :: levels, .firstItem⟩ (done ++ [.openArray])
  | firstKey {levels : List Level} {done : List Token} (outer : Within limit levels done)
      (room : levels.length + 1 ≤ limit) :
      Stands limit ⟨levels, .firstKey []⟩ (done ++ [.openObject])
  | key {levels : List Level} {done : List Token} (members : List (String × Json))
      (outer : Within limit levels done)
      (room : levels.length + (depthMembers members + 1) ≤ limit) :
      Stands limit ⟨levels, .key (Entries.ofList (tidyMembers members))⟩
        (done ++ .openObject :: tokensBeforeKey members)
  | colon {levels : List Level} {done : List Token} (members : List (String × Json))
      {key : String} (outer : Within limit levels done)
      (room : levels.length + (depthMembers members + 1) ≤ limit) :
      Stands limit ⟨levels, .colon (Entries.ofList (tidyMembers members)) key⟩
        (done ++ .openObject :: tokensBeforeKey members ++ [.text key])
  | next {levels : List Level} {done : List Token} {v : Json} (outer : Within limit levels done)
      (room : levels.length + depth v ≤ limit) :
      Stands limit ⟨levels, .next (tidy v)⟩ (done ++ tokens v)

/-- Whether a token that stands for a value is the token of that value. -/
def Token.Proper : Token → Prop
  | .scalar v => tokens v = [.scalar v]
  | _ => True

theorem Token.Writes.proper {t : Token} {cs : List Char} (h : t.Writes cs) : t.Proper := by
  cases h with
  | number _ value =>
    obtain ⟨i, rfl, _⟩ | ⟨x, rfl⟩ := Literal.value?_cases value <;> rfl
  | null | true | false => rfl
  | _ => trivial

theorem Spells.proper {ts : List Token} {cs : List Char} (h : Spells ts cs) :
    ∀ t ∈ ts, t.Proper := by
  induction h with
  | done => simp
  | token _ written _ ih => exact List.forall_mem_cons.mpr ⟨written.proper, ih⟩

/-- A literal stays as it is and needs no room. -/
theorem stands_scalar {levels : List Level} {done : List Token} {v : Json}
    (outer : Within limit levels done) (room : levels.length ≤ limit)
    (proper : tokens v = [.scalar v]) :
    Stands limit ⟨levels, .next v⟩ (done ++ [.scalar v]) := by
  have alone : tidy v = v ∧ depth v = 0 := by cases v <;> simp_all [tokens, tidy, depth]
  have now := Stands.next (v := v) outer (by omega)
  rwa [alone.1, proper] at now

theorem Within.room {levels : List Level} {done : List Token} (h : Within limit levels done) :
    levels.length ≤ limit := by
  cases h with
  | top => exact Nat.zero_le _
  | array _ _ room | object _ room =>
    rw [List.length_cons]
    omega

/-- A token where a value may start. -/
theorem stands_startValue {levels : List Level} {done : List Token} {t : Token} {q : Parsing}
    (outer : Within limit levels done) (proper : t.Proper)
    (h : Parsing.startValue limit levels t = some q) : Stands limit q (done ++ [t]) := by
  cases t with
  | openArray =>
    obtain ⟨room, same⟩ := Option.ite_none_right_eq_some.mp h
    obtain rfl := Option.some.inj same
    exact .firstItem outer room
  | openObject =>
    obtain ⟨room, same⟩ := Option.ite_none_right_eq_some.mp h
    obtain rfl := Option.some.inj same
    exact .firstKey outer room
  | text s =>
    obtain rfl := Option.some.inj h
    exact .next (v := .str s) outer outer.room
  | scalar v =>
    obtain rfl := Option.some.inj h
    exact stands_scalar outer outer.room proper
  | _ => cases h

/-- A comma behind an item. -/
theorem Within.item {levels : List Level} {done : List Token} {items : List Json} {v : Json}
    (outer : Within limit levels done) (before : levels.length + (depthItems items + 1) ≤ limit)
    (room : levels.length + 1 + depth v ≤ limit) :
    Within limit (.array (tidy v :: (tidyItems items).reverse) :: levels)
      (done ++ .openArray :: tokensBefore items ++ tokens v ++ [.comma]) := by
  have more := Within.array (items ++ [v]) outer (by rw [depthItems_snoc]; omega)
  rw [tidyItems_append, List.reverse_append, tokensBefore_snoc] at more
  simpa [tidyItems] using more

/-- The end of an array behind its last item. -/
theorem Stands.closeArray {levels : List Level} {done : List Token} {items : List Json} {v : Json}
    (outer : Within limit levels done) (before : levels.length + (depthItems items + 1) ≤ limit)
    (room : levels.length + 1 + depth v ≤ limit) :
    Stands limit ⟨levels, .next (.arr (tidy v :: (tidyItems items).reverse).reverse)⟩
      (done ++ .openArray :: tokensBefore items ++ tokens v ++ [.closeArray]) := by
  have whole := Stands.next outer (v := .arr (items ++ [v]))
    (by rw [depth, depthItems_snoc]; omega)
  rw [tidy, tidyItems_append, tokens, tokensItems_snoc] at whole
  simpa [tidyItems] using whole

/-- A comma behind a member. -/
theorem Stands.member {levels : List Level} {done : List Token} {members : List (String × Json)}
    {key : String} {v : Json} (outer : Within limit levels done)
    (before : levels.length + (depthMembers members + 1) ≤ limit)
    (room : levels.length + 1 + depth v ≤ limit) :
    Stands limit ⟨levels, .key (Entries.put key (tidy v) (Entries.ofList (tidyMembers members)))⟩
      (done ++ .openObject :: tokensBeforeKey members ++ [.text key, .colon] ++ tokens v ++
        [.comma]) := by
  have more := Stands.key (members ++ [(key, v)]) outer
    (by rw [depthMembers_snoc]; omega)
  rw [ofList_tidyMembers_snoc, tokensBeforeKey_snoc] at more
  simpa using more

/-- The end of an object behind its last member. -/
theorem Stands.closeObject {levels : List Level} {done : List Token}
    {members : List (String × Json)} {key : String} {v : Json} (outer : Within limit levels done)
    (before : levels.length + (depthMembers members + 1) ≤ limit)
    (room : levels.length + 1 + depth v ≤ limit) :
    Stands limit
      ⟨levels, .next (.obj (Entries.put key (tidy v) (Entries.ofList (tidyMembers members))))⟩
      (done ++ .openObject :: tokensBeforeKey members ++ [.text key, .colon] ++ tokens v ++
        [.closeObject]) := by
  have whole := Stands.next outer (v := .obj (members ++ [(key, v)]))
    (by rw [depth, depthMembers_snoc]; omega)
  rw [tidy, ofMembers, ofList_tidyMembers_snoc, tokens, tokensMembers_snoc] at whole
  simpa using whole

/-- A token behind a complete value. -/
theorem stands_continueLevel {levels : List Level} {done : List Token} {v : Json} {t : Token}
    {q : Parsing} (outer : Within limit levels done) (room : levels.length + depth v ≤ limit)
    (h : Parsing.continueLevel levels (tidy v) t = some q) :
    Stands limit q (done ++ tokens v ++ [t]) := by
  cases t with
  | comma =>
    cases outer with
    | top => cases h
    | array items outer before =>
      obtain rfl := Option.some.inj h
      exact .value (outer.item before room)
    | object outer before =>
      obtain rfl := Option.some.inj h
      exact .member outer before room
  | closeArray =>
    cases outer with
    | top | object => cases h
    | array items outer before =>
      obtain rfl := Option.some.inj h
      exact .closeArray outer before room
  | closeObject =>
    cases outer with
    | top | array => cases h
    | object outer before =>
      obtain rfl := Option.some.inj h
      exact .closeObject outer before room
  | _ => cases h

/-- A token leads from what stands for the tokens so far to what stands for them and it. -/
theorem Stands.read {p q : Parsing} {done : List Token} {t : Token} (stands : Stands limit p done)
    (proper : t.Proper) (h : Parsing.read limit p t = some q) : Stands limit q (done ++ [t]) := by
  cases stands with
  | value outer => exact stands_startValue outer proper h
  | @firstItem levels done outer room =>
    by_cases last : t = .closeArray
    · subst last
      obtain rfl := Option.some.inj h
      simpa [tokens, tokensItems, tidy, tidyItems] using
        Stands.next outer (v := .arr []) (by simpa [depth, depthItems] using room)
    · have within := Within.array [] outer (by simpa [depthItems] using room)
      refine stands_startValue within proper ?_
      cases t with
      | closeArray => exact absurd rfl last
      | _ => exact h
  | @firstKey levels done outer room =>
    cases t with
    | closeObject =>
      obtain rfl := Option.some.inj h
      simpa [tokens, tokensMembers, tidy, tidyMembers, ofMembers, Entries.ofList] using
        Stands.next outer (v := .obj []) (by simpa [depth, depthMembers] using room)
    | text s =>
      obtain rfl := Option.some.inj h
      exact .colon [] outer (by simpa [depthMembers] using room)
    | _ => cases h
  | key members outer room =>
    cases t with
    | text s =>
      obtain rfl := Option.some.inj h
      exact .colon members outer room
    | _ => cases h
  | colon members outer room =>
    cases t with
    | colon =>
      obtain rfl := Option.some.inj h
      simpa using Stands.value (.object outer room)
    | _ => cases h
  | next outer room => exact stands_continueLevel outer room h

/-- What has been read stands for all its tokens. -/
theorem Stands.readAll {p q : Parsing} {done ts : List Token} (stands : Stands limit p done)
    (proper : ∀ t ∈ ts, t.Proper) (h : Parsing.readAll limit p ts = some q) :
    Stands limit q (done ++ ts) := by
  induction ts generalizing p done with
  | nil =>
    obtain rfl := Option.some.inj h
    simpa using stands
  | cons t ts ih =>
    obtain ⟨next, read, h⟩ := Option.bind_eq_some_iff.mp h
    obtain ⟨first, rest⟩ := List.forall_mem_cons.mp proper
    simpa using ih (stands.read first read) rest h

/-- When nothing is left open, the tokens are those of one value. -/
theorem Stands.result {p : Parsing} {done : List Token} {v : Json} (stands : Stands limit p done)
    (h : p.result? = some v) : ∃ w, done = tokens w ∧ depth w ≤ limit ∧ tidy w = v := by
  cases stands with
  | next outer room =>
    cases outer with
    | top =>
      obtain rfl := Option.some.inj h
      exact ⟨_, rfl, by simpa using room, rfl⟩
    | _ => cases h
  | _ =>
    unfold Parsing.result? at h
    split at h <;> simp_all

end Stack

/-! ## Texts and bytes -/

/-- A text is read as a value exactly if it spells the tokens of a value that is not nested too
deeply and that is that value once it is tidied. -/
theorem readChars?_eq_some_iff {limit : Nat} {cs : List Char} {v : Json} :
    readChars? limit cs = some v ↔ ∃ w, Spells (tokens w) cs ∧ depth w ≤ limit ∧ tidy w = v := by
  constructor
  · intro h
    obtain ⟨ts, found, h⟩ := Option.bind_eq_some_iff.mp h
    obtain ⟨p, read, h⟩ := Option.bind_eq_some_iff.mp h
    have spelling := spells_of_tokens found
    have stands : Stands limit p ts := Stands.readAll (.value .top) spelling.proper read
    obtain ⟨w, rfl, shallow, tidied⟩ := stands.result h
    exact ⟨w, spelling, shallow, tidied⟩
  · rintro ⟨w, spelling, shallow, rfl⟩
    have found := tokens?_of_spells spelling (separate_tokens_alone w)
    simpa [readChars?, found] using result?_of_tokens shallow

/-- Whether bytes are the strict JSON text of a value, the members of its objects as written. -/
def Denotes (bytes : Bytes) (w : Json) : Prop :=
  ∃ cs, bytes = Utf8.encode (String.ofList cs) ∧ Spells (tokens w) cs

/-- Bytes denote one value. -/
theorem Denotes.unique {bytes : Bytes} {v w : Json} (hv : Denotes bytes v) (hw : Denotes bytes w) :
    v = w := by
  obtain ⟨cs, rfl, hv⟩ := hv
  obtain ⟨ds, same, hw⟩ := hw
  have texts := congrArg Utf8.chars? same
  rw [Utf8.chars?_encode, Utf8.chars?_encode, String.toList_ofList, String.toList_ofList] at texts
  obtain rfl := Option.some.inj texts
  have found := tokens?_of_spells hv (separate_tokens_alone v)
  rw [tokens?_of_spells hw (separate_tokens_alone w)] at found
  exact (tokens_injective (Option.some.inj found)).symm

/-- Bytes are read as a value exactly if they denote a value that is not nested too deeply and
that is that value once it is tidied. -/
theorem readBytes?_eq_some_iff {bytes : Bytes} {v : Json} :
    readBytes? bytes = some v ↔ ∃ w, Denotes bytes w ∧ depth w ≤ nestingLimit ∧ tidy w = v := by
  rw [readBytes?, Option.bind_eq_some_iff]
  simp only [Utf8.chars?_eq_some_iff, readChars?_eq_some_iff]
  constructor
  · rintro ⟨cs, bytes, w, spelling, rest⟩
    exact ⟨w, ⟨cs, bytes, spelling⟩, rest⟩
  · rintro ⟨w, ⟨cs, bytes, spelling⟩, rest⟩
    exact ⟨cs, bytes, w, spelling, rest⟩

end LanguageClient.Json
