import LanguageClient.Proofs.Settings.Layering
import LanguageClient.Proofs.Text.Trimming
import LanguageClient.Settings.Load

/-!
# Texts of comments

A user's file with nothing but blank lines and comments is not read as a document.  This loses
no setting: where every line is blank or a comment, each line that the reader of documents
takes is one of these lines, so that what it reads, if anything, is the empty table.
-/

set_option autoImplicit false

namespace LanguageClient

/-! ## Lines -/

namespace Text

variable {c : Char} {line cs : List Char}

theorem lines_eq (cs : List Char) : lines cs = lines.go [] cs := by
  cases cs <;> rfl

theorem lines.go_cons (line cs : List Char) (other : c ≠ '\n') :
    go line (c :: cs) = go (c :: line) cs := by
  rw [go]
  exact other

/-- What follows a line feed is made of lines of its own. -/
theorem lines.go_append (line cs rest : List Char) :
    ∃ before, go line (cs ++ '\n' :: rest) = before ++ lines rest := by
  induction cs generalizing line with
  | nil => exact ⟨[ended line], by rw [lines_eq]; rfl⟩
  | cons c cs ih =>
    rw [List.cons_append]
    by_cases ends : c = '\n'
    · subst ends
      obtain ⟨before, eq⟩ := ih []
      exact ⟨ended line :: before, by rw [go, eq, List.cons_append]⟩
    · rw [go_cons line _ ends]
      exact ih (c :: line)

theorem exists_lines_append (cs rest : List Char) :
    ∃ before, lines (cs ++ '\n' :: rest) = before ++ lines rest := by
  rw [lines_eq]
  exact lines.go_append [] cs rest

/-- What has been read of a line stays at its front, up to a character that does not belong to
an ending. -/
theorem lines.go_started (stays : c ≠ '\r') (front line cs : List Char) :
    ∃ more others, go (front ++ c :: line) cs = (line.reverse ++ c :: more) :: others := by
  induction cs generalizing front with
  | nil => exact ⟨front.reverse, [], by simp [go]⟩
  | cons d cs ih =>
    by_cases ends : d = '\n'
    · subst ends
      rw [go]
      have kept : ∃ more, ended (front ++ c :: line) = line.reverse ++ c :: more := by
        unfold ended
        split
        · rename_i before eq
          cases front with
          | nil => exact absurd (List.cons.inj eq).1 stays
          | cons d front =>
            obtain rfl := (List.cons.inj eq).2
            exact ⟨front.reverse, by simp⟩
        · exact ⟨front.reverse, by simp⟩
      obtain ⟨more, eq⟩ := kept
      exact ⟨more, _, by rw [eq]⟩
    · rw [go_cons _ _ ends]
      exact ih (d :: front)

/-- A character in the first line of a text, with what is in front of it. -/
theorem exists_first_line (gap : '\n' ∉ line) (feed : c ≠ '\n') (stays : c ≠ '\r')
    (cs : List Char) : ∃ more others, lines (line ++ c :: cs) = (line ++ c :: more) :: others := by
  have read : ∀ front, lines.go front (line ++ c :: cs) =
      lines.go (c :: (line.reverse ++ front)) cs := by
    induction line with
    | nil => exact fun front => lines.go_cons front cs feed
    | cons d line ih =>
      intro front
      have other : d ≠ '\n' := fun same => gap (same ▸ List.mem_cons_self)
      rw [List.cons_append, lines.go_cons front _ other, ih (List.not_mem_of_not_mem_cons gap)]
      simp
  rw [lines_eq, read, List.append_nil]
  obtain ⟨more, others, eq⟩ := lines.go_started stays [] line.reverse cs
  exact ⟨more, others, by simpa using eq⟩

end Text

namespace Toml

open Settings
open Text (isGap isBlank_of_isGap)

variable {c : Char} {cs rest : List Char}

/-! ## Lines that set nothing -/

/-- Whether every line of a text is blank or a comment. -/
def Silent (cs : List Char) : Prop := ∀ line ∈ Text.lines cs, isSignificant line = false

theorem silent_iff {text : String} : Silent text.toList ↔ hasContent text = false := by
  rw [hasContent, List.any_eq_false]
  simp [Silent]

theorem Silent.after_lineFeed (silent : Silent (cs ++ '\n' :: rest)) : Silent rest := by
  intro line there
  obtain ⟨before, split⟩ := Text.exists_lines_append cs rest
  refine silent line ?_
  rw [split]
  exact List.mem_append_right before there

/-- After a gap there is a blank, or a comment begins. -/
theorem Silent.head (silent : Silent cs) (read : skipGap cs = c :: rest) :
    Text.isBlank c = true ∨ c = '#' := by
  by_contra neither
  obtain ⟨visible, other⟩ := not_or.mp neither
  have stays : Text.isBlank c = false := Bool.eq_false_iff.mpr visible
  have split : cs = cs.takeWhile isGap ++ c :: rest := by
    rw [← read, skipGap, List.takeWhile_append_dropWhile]
  have gap : ∀ d ∈ cs.takeWhile isGap, isGap d = true := fun d hd => List.mem_takeWhile_imp hd
  have feed : '\n' ∉ cs.takeWhile isGap := fun there => by cases gap _ there
  have notFeed : c ≠ '\n' := by rintro rfl; exact visible (by decide)
  have notReturn : c ≠ '\r' := by rintro rfl; exact visible (by decide)
  obtain ⟨more, others, first⟩ := Text.exists_first_line feed notFeed notReturn rest
  rw [← split] at first
  have quiet := silent _ (by rw [first]; exact List.mem_cons_self)
  -- Trimmed, the first line begins with the character.
  have head := Text.head?_trimBoth (fun d hd => isBlank_of_isGap (gap d hd)) stays more
  rw [isSignificant, Text.trim] at quiet
  cases trimmed : Text.trimBoth Text.isBlank (cs.takeWhile isGap ++ c :: more) with
  | nil =>
    rw [trimmed] at head
    cases head
  | cons d ds =>
    rw [trimmed] at head quiet
    obtain rfl := Option.some.inj head
    simp [other] at quiet

/-! ## Reading them -/

theorem lineBreak?_eq_some (read : lineBreak? cs = some rest) :
    ∃ before, cs = before ++ '\n' :: rest := by
  unfold lineBreak? at read
  split at read
  · obtain rfl := Option.some.inj read
    exact ⟨[], rfl⟩
  · obtain rfl := Option.some.inj read
    exact ⟨['\r'], rfl⟩
  · cases read

/-- The end of a line is that of the text, or its line feed. -/
theorem endOfLine?_eq_some (read : endOfLine? cs = some rest) :
    rest = [] ∨ ∃ before, cs = before ++ '\n' :: rest := by
  have ends : ∀ front text : List Char, cs = front ++ text →
      (if text.isEmpty then some [] else lineBreak? text) = some rest →
        rest = [] ∨ ∃ before, cs = before ++ '\n' :: rest := by
    intro front text split read
    split at read
    · exact .inl (Option.some.inj read).symm
    · obtain ⟨before, eq⟩ := lineBreak?_eq_some read
      exact .inr ⟨front ++ before, by rw [split, eq, List.append_assoc]⟩
  have gap : cs = cs.takeWhile isGap ++ skipGap cs := List.takeWhile_append_dropWhile.symm
  unfold endOfLine? at read
  split at read
  · rename_i text comment
    refine ends (cs.takeWhile isGap ++ '#' :: text.takeWhile isText) (skipComment text) ?_ read
    rw [List.append_assoc, List.cons_append, skipComment, List.takeWhile_append_dropWhile,
      ← comment, ← gap]
  · exact ends _ _ gap read

theorem silent_nil : Silent [] := by
  intro line there
  cases there

theorem Silent.after_line (silent : Silent cs) (read : endOfLine? (skipGap cs) = some rest) :
    Silent rest := by
  rcases endOfLine?_eq_some read with rfl | ⟨before, split⟩
  · exact silent_nil
  · have whole : cs = cs.takeWhile isGap ++ skipGap cs := List.takeWhile_append_dropWhile.symm
    rw [split, ← List.append_assoc] at whole
    rw [whole] at silent
    exact silent.after_lineFeed

theorem isBare_of_isBlank (blank : Text.isBlank c = true) : isBare c = false := by
  refine Bool.eq_false_iff.mpr fun bare => ?_
  have value : c.val.toNat = c.toNat := rfl
  simp only [Text.isBlank, Bool.or_eq_true, Bool.and_eq_true, decide_eq_true_eq] at blank
  simp only [isBare, Number.isDigit, Bool.or_eq_true, Bool.and_eq_true, decide_eq_true_eq,
    Char.le_def, UInt32.le_iff_toNat_le, Char.reduceVal, UInt32.reduceToNat, value] at bare
  rcases bare with (range | rfl) | rfl
  · omega
  · revert blank
    decide
  · revert blank
    decide

/-- No key begins with a blank or a number sign. -/
theorem keyValue?_eq_none {value? : List Char → Option (Value × List Char)}
    (first : Text.isBlank c = true ∨ c = '#') (ungapped : isGap c = false) :
    keyValue? value? (c :: rest) = none := by
  have bare : isBare c = false := by
    rcases first with blank | rfl
    · exact isBare_of_isBlank blank
    · decide
  have notDouble : c ≠ '"' := by
    rintro rfl
    revert first
    decide
  have notSingle : c ≠ '\'' := by
    rintro rfl
    revert first
    decide
  have kept : skipGap (c :: rest) = c :: rest := List.dropWhile_cons_of_neg (by simp [ungapped])
  have part : keyPart? (c :: rest) = none := by
    rw [keyPart?]
    · simp [bare]
    · rintro tail eq
      exact notDouble (List.cons.inj eq).1
    · rintro tail eq
      exact notSingle (List.cons.inj eq).1
  have parts : key? (c :: rest) = none := by
    rw [key?, maxDepth, keyParts?, kept, part]
    rfl
  rw [keyValue?, parts]
  rfl

/-- A line of a text that sets nothing leaves the document as it is. -/
theorem Silent.line? {doc next : Document} {after : List Char} (silent : Silent cs)
    (begins : skipGap cs = c :: rest)
    (read : doc.line? (c :: rest) = some (next, after)) : next = doc ∧ Silent after := by
  have first := silent.head begins
  have ungapped : isGap c = false := by
    have head := List.head?_dropWhile_not isGap cs
    rw [← skipGap, begins] at head
    exact head
  have ended : (endOfLine? (c :: rest)).map (doc, ·) = some (next, after) →
      next = doc ∧ Silent after := by
    intro read
    obtain ⟨text, atEnd, eq⟩ := Option.map_eq_some_iff.mp read
    obtain ⟨rfl, rfl⟩ := Prod.mk.inj eq
    exact ⟨rfl, silent.after_line (begins ▸ atEnd)⟩
  have bracket : c ≠ '[' := by
    rintro rfl
    revert first
    decide
  unfold Document.line? at read
  split at read
  · exact ended read
  · exact ended read
  · exact ended read
  · rename_i eq
    exact absurd (List.cons.inj eq).1 bracket
  · rename_i eq
    exact absurd (List.cons.inj eq).1 bracket
  · rw [keyValue?_eq_none first ungapped] at read
    cases read

/-- A text that sets nothing leaves a document as it is. -/
theorem Silent.lines? {doc next : Document} {fuel : Nat} (silent : Silent cs)
    (read : doc.lines? fuel cs = some next) : next = doc := by
  induction fuel generalizing cs doc with
  | zero => cases read
  | succ fuel ih =>
    rw [Document.lines?] at read
    split at read
    · exact (Option.some.inj read).symm
    · rename_i more
      obtain ⟨⟨mid, after⟩, first, later⟩ := Option.bind_eq_some_iff.mp read
      cases begins : skipGap cs with
      | nil => exact absurd begins more
      | cons c line =>
        rw [begins] at first
        obtain ⟨rfl, quiet⟩ := silent.line? begins first
        exact ih quiet later

/-- A text with nothing but blank lines and comments describes the empty table, if it describes
any. -/
theorem eq_empty_of_not_hasContent {text : String} {v : Value} (silent : hasContent text = false)
    (read : read? text.toList = some v) : v = .empty := by
  have quiet := silent_iff.mpr silent
  unfold read? at read
  split at read
  · -- A byte order mark would be neither blank nor the beginning of a comment.
    rename_i rest eq
    have begins : skipGap text.toList = '\uFEFF' :: rest := by
      rw [eq]
      rfl
    rcases quiet.head begins with blank | comment
    · cases blank
    · cases comment
  · obtain ⟨doc, lines, rfl⟩ := Option.map_eq_some_iff.mp read
    rw [quiet.lines? lines]
    rfl

end Toml

/-! ## The user's settings -/

namespace Settings

theorem mergeFile_eq_ok_iff {base s : Settings} {file : Path} {text : String} :
    mergeFile base file text = .ok s ↔ base.merge text = .ok s := by
  unfold mergeFile
  split
  · rename_i malformed
    rw [malformed]
    simp
  · rfl

/-- No setting of a well-formed user's file is lost: loading gives what the text gives over the
defaults, whether or not it is read as a document.  Where it is not, it describes the empty
table, and laying it over settings changes nothing. -/
theorem loadUser_of_read {text : String} {v : Toml.Value}
    (read : Toml.read? text.toList = some v) :
    (∀ (t : FileTree) (folder : Path), readFile t (folder.child fileName) = .ok text →
      loadUser t folder = mergeFile .default (folder.child fileName) text ∧
        ∀ s, loadUser t folder = .ok s ↔ merge .default text = .ok s) ∧
    (v ≠ .empty → hasContent text = true) ∧
    (hasContent text = false → ∀ base : Settings, base.Reached → base.merge text = .ok base) := by
  have unchanged : hasContent text = false →
      ∀ base : Settings, base.Reached → base.merge text = .ok base := by
    intro silent base reached
    obtain rfl := Toml.eq_empty_of_not_hasContent silent read
    exact merge_eq_ok_iff.mpr ⟨_, read, layer?_empty base reached.increasing⟩
  have loaded : ∀ (t : FileTree) (folder : Path), readFile t (folder.child fileName) = .ok text →
      loadUser t folder = mergeFile .default (folder.child fileName) text := by
    intro t folder there
    rw [loadUser, there]
    cases content : hasContent text with
    | true => exact if_pos content
    | false =>
      have start : Reached .default := ⟨[], rfl⟩
      rw [mergeFile, unchanged content .default start]
      exact if_neg (by simp [content])
  refine ⟨fun t folder there => ⟨loaded t folder there, fun s => ?_⟩, fun filled => ?_, unchanged⟩
  · rw [loaded t folder there]
    exact mergeFile_eq_ok_iff
  · by_contra silent
    exact filled (Toml.eq_empty_of_not_hasContent (Bool.eq_false_iff.mpr silent) read)

/-- A quoted key after an indented comment is read; a text of comments alone is not. -/
theorem loadUser_of_read_quoted_key :
    let text := "\t# note\r\n \"log\".level = \"debug\" # more\n"
    let quiet := "\t# [log]\r\n\n # level = \"debug\""
    let t : FileTree := ⟨[], [([Utf8.encode fileName], .file text.toUTF8)]⟩
    loadUser t (.ofString ".") = .ok ⟨⟨.debug, none⟩, .default⟩ ∧ hasContent text = true ∧
      merge ⟨⟨.debug, none⟩, .default⟩ quiet = .ok ⟨⟨.debug, none⟩, .default⟩ := by
  intro text quiet t
  have there : readFile t ((Path.ofString ".").child fileName) = .ok text := by decide +kernel
  have merged : merge .default text = .ok ⟨⟨.debug, none⟩, .default⟩ := by decide +kernel
  obtain ⟨v, read, laid⟩ := merge_eq_ok_iff.mp merged
  have reached : Reached ⟨⟨.debug, none⟩, .default⟩ :=
    ⟨[text], by rw [List.foldlM_cons, merged]; rfl⟩
  have filled : v ≠ .empty := by
    rintro rfl
    rw [layer?_empty .default LspSettings.increasing_default] at laid
    revert laid
    decide
  have quietRead : (Toml.read? quiet.toList).isSome = true := by decide +kernel
  obtain ⟨w, quietRead⟩ := Option.isSome_iff_exists.mp quietRead
  obtain ⟨loaded, content, -⟩ := loadUser_of_read read
  exact ⟨((loaded t _ there).2 _).mpr merged, content filled,
    (loadUser_of_read quietRead).2.2 (by decide +kernel) _ reached⟩

end Settings

end LanguageClient
