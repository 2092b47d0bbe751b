import LanguageClient.Proofs.Wire.Framing
import LanguageClient.Wire.Reader

/-!
# Streams of frames

What the bytes read so far say about a stream is final: more bytes only add to it.  So a
stream of frames falls into its frames wherever it is cut, and a reader that takes it piece
by piece finds what is found in all of it at once.
-/

set_option autoImplicit false

namespace LanguageClient

namespace Frame

/-! ## Scanning a longer sequence -/

/-- A scan with more bytes behind the frame that it has found. -/
def Scan.before (more : Bytes) : Scan → Scan
  | .frame body rest => .frame body (rest ++ more)
  | s => s

/-- What is said after a header block is also said with more bytes behind. -/
theorem scanBody_append {length : Option Nat} {bytes : Bytes}
    (through : scanBody length bytes ≠ .incomplete) (more : Bytes) :
    scanBody length (bytes ++ more) = (scanBody length bytes).before more := by
  unfold scanBody at through ⊢
  cases length with
  | none => rfl
  | some n =>
    by_cases long : maxBody < n
    · simp [long, Scan.before]
    · by_cases short : bytes.length < n
      · simp [long, short] at through
      · have enough : n ≤ bytes.length := Nat.le_of_not_lt short
        have notShort : ¬ (bytes ++ more).length < n := by
          rw [List.length_append]
          omega
        simp only [long, short, notShort, if_false, Scan.before]
        rw [List.take_append_of_le_length enough, List.drop_append_of_le_length enough]

/-- What is said about a sequence is also said with more bytes behind. -/
theorem scanHeader_append {line : Bytes} {length : Option Nat} {bytes : Bytes}
    (through : scanHeader line length bytes ≠ .incomplete) (more : Bytes) :
    scanHeader line length (bytes ++ more) = (scanHeader line length bytes).before more := by
  induction bytes generalizing line length with
  | nil => exact absurd rfl through
  | cons b bytes ih =>
    rw [List.cons_append]
    unfold scanHeader at through ⊢
    by_cases feed : b = 10
    · simp only [if_pos feed] at through ⊢
      cases hl : readLine line.reverse with
      | error f => rfl
      | ok header =>
        simp only [hl] at through ⊢
        cases header with
        | last => exact scanBody_append through more
        | length n => exact ih through
        | ignored => exact ih through
    · simp only [if_neg feed] at through ⊢
      exact ih through

/-- A frame at the start of a sequence is found there with more bytes behind. -/
theorem scan_append_of_frame {bytes body rest : Bytes} (h : scan bytes = .frame body rest)
    (more : Bytes) : scan (bytes ++ more) = .frame body (rest ++ more) := by
  have through : scan bytes ≠ .incomplete := by simp [h]
  rw [scan, scanHeader_append through, ← scan, h]
  rfl

theorem scan_append_of_fault {bytes : Bytes} {f : Fault} (h : scan bytes = .fault f)
    (more : Bytes) : scan (bytes ++ more) = .fault f := by
  have through : scan bytes ≠ .incomplete := by simp [h]
  rw [scan, scanHeader_append through, ← scan, h]
  rfl

/-! ## Draining a longer sequence -/

theorem drain_of_incomplete {bytes : Bytes} (h : scan bytes = .incomplete) :
    drain bytes = ([], .ok bytes) := by
  rw [drain]
  split <;> simp_all

theorem drain_of_fault {bytes : Bytes} {f : Fault} (h : scan bytes = .fault f) :
    drain bytes = ([], .error f) := by
  rw [drain]
  split <;> simp_all

theorem drain_of_frame {bytes body rest : Bytes} (h : scan bytes = .frame body rest) :
    drain bytes = (body :: (drain rest).1, (drain rest).2) := by
  rw [drain]
  split <;> simp_all

/-- Bytes behind an incomplete frame go on with it. -/
theorem drain_append_of_ok {bytes unread : Bytes} (h : (drain bytes).2 = .ok unread)
    (more : Bytes) :
    drain (bytes ++ more) =
      ((drain bytes).1 ++ (drain (unread ++ more)).1, (drain (unread ++ more)).2) := by
  induction bytes using drain.induct with
  | case1 bytes incomplete =>
    rw [drain_of_incomplete incomplete] at h ⊢
    obtain rfl : bytes = unread := by simpa using h
    simp
  | case2 bytes f fault =>
    rw [drain_of_fault fault] at h
    simp at h
  | case3 bytes body rest frame _ _ _ _ ih =>
    rw [drain_of_frame frame] at h ⊢
    rw [drain_of_frame (scan_append_of_frame frame more), ih h]
    rfl

/-- Bytes behind a fault are not looked at. -/
theorem drain_append_of_error {bytes : Bytes} {f : Fault} (h : (drain bytes).2 = .error f)
    (more : Bytes) : drain (bytes ++ more) = drain bytes := by
  induction bytes using drain.induct with
  | case1 bytes incomplete =>
    rw [drain_of_incomplete incomplete] at h
    simp at h
  | case2 bytes g fault =>
    rw [drain_of_fault fault, drain_of_fault (scan_append_of_fault fault more)]
  | case3 bytes body rest frame _ _ _ _ ih =>
    rw [drain_of_frame frame] at h ⊢
    rw [drain_of_frame (scan_append_of_frame frame more), ih h]

/-- Frames come out one after the other, and reading goes on right behind them. -/
theorem drain_frames {bodies : List Bytes} (h : ∀ b ∈ bodies, b.length ≤ maxBody)
    (rest : Bytes) :
    drain (bodies.flatMap encode ++ rest) = (bodies ++ (drain rest).1, (drain rest).2) := by
  induction bodies with
  | nil => rfl
  | cons body bodies ih =>
    have first := scan_encode_append (h body List.mem_cons_self) (bodies.flatMap encode ++ rest)
    rw [List.flatMap_cons, List.append_assoc, drain_of_frame first,
      ih fun b hb => h b (List.mem_cons_of_mem body hb)]
    rfl

end Frame

/-! ## The outcomes of a stream -/

/-- The fault at which reading has stopped. -/
def stopOf : Except Frame.Fault Bytes → Option Frame.Fault
  | .error f => some f
  | .ok _ => none

theorem outcomes_eq (bytes : Bytes) :
    outcomes bytes = ((Frame.drain bytes).1.map Message.parse?, stopOf (Frame.drain bytes).2) := by
  unfold outcomes Frame.split
  obtain ⟨bodies, stop⟩ := Frame.drain bytes
  cases stop <;> rfl

theorem outcomes_nil : outcomes [] = ([], none) := by
  rw [outcomes_eq, Frame.drain_of_incomplete rfl]
  rfl

/-- Frames give the outcomes of their bodies, and reading goes on right behind them. -/
theorem outcomes_frames {bodies : List Bytes} (h : ∀ b ∈ bodies, b.length ≤ Frame.maxBody)
    (rest : Bytes) :
    outcomes (bodies.flatMap Frame.encode ++ rest) =
      (bodies.map Message.parse? ++ (outcomes rest).1, (outcomes rest).2) := by
  rw [outcomes_eq, outcomes_eq, Frame.drain_frames h, List.map_append]

/-- A stream that is cut has the first outcomes of the whole stream and no fault, or else
all its outcomes and the same fault. -/
theorem outcomes_append (bytes more : Bytes) :
    ((outcomes bytes).2 = none ∧ (outcomes bytes).1 <+: (outcomes (bytes ++ more)).1) ∨
      ((outcomes bytes).2.isSome ∧ outcomes (bytes ++ more) = outcomes bytes) := by
  rw [outcomes_eq, outcomes_eq]
  cases h : (Frame.drain bytes).2 with
  | ok unread =>
    refine .inl ⟨rfl, ?_⟩
    rw [Frame.drain_append_of_ok h, List.map_append]
    exact List.prefix_append _ _
  | error f =>
    refine .inr ⟨rfl, ?_⟩
    rw [Frame.drain_append_of_error h, h]

/-! ## Readers -/

namespace Reader

/-- Whether the reader is where the bytes read so far have led it. -/
def At (r : Reader) (bytes : Bytes) : Prop :=
  match (Frame.drain bytes).2 with
  | .ok unread => r = ⟨unread, false⟩
  | .error _ => r.stopped = true

theorem start_at : start.At [] := by
  simp only [At, Frame.drain_of_incomplete (show Frame.scan [] = .incomplete from rfl)]
  rfl

/-- A piece of a stream leads the reader on, and brings what it adds to the outcomes. -/
theorem feed_at {r : Reader} {bytes : Bytes} (h : r.At bytes) (more : Bytes) :
    (r.feed more).1.At (bytes ++ more) ∧
      (outcomes (bytes ++ more)).1 = (outcomes bytes).1 ++ (r.feed more).2.outcomes ∧
      (outcomes (bytes ++ more)).2 = ((outcomes bytes).2 <|> (r.feed more).2.fault) := by
  unfold At at h ⊢
  simp only [outcomes_eq]
  cases before : (Frame.drain bytes).2 with
  | error f =>
    simp only [before] at h
    rw [Frame.drain_append_of_error before, before]
    simp [feed, h, stopOf]
  | ok unread =>
    simp only [before] at h
    subst h
    rw [Frame.drain_append_of_ok before]
    unfold feed
    cases after : (Frame.drain (unread ++ more)).2 with
    | ok unread => simp [after, stopOf]
    | error f => simp [after, stopOf]

/-- The reader has stopped exactly after a fault. -/
theorem At.stopped_eq {r : Reader} {bytes : Bytes} (h : r.At bytes) :
    r.stopped = (outcomes bytes).2.isSome := by
  unfold At at h
  rw [outcomes_eq]
  cases before : (Frame.drain bytes).2 with
  | error f =>
    simp only [before] at h
    simp [h, stopOf]
  | ok unread =>
    simp only [before] at h
    simp [h, stopOf]

/-- After a fault nothing matters but that the reader has stopped. -/
theorem at_of_fault {r : Reader} {bytes : Bytes} (fault : (outcomes bytes).2.isSome = true)
    (stopped : r.stopped = true) : r.At bytes := by
  unfold At
  rw [outcomes_eq] at fault
  cases before : (Frame.drain bytes).2 with
  | error f => exact stopped
  | ok unread => simp [before, stopOf] at fault

end Reader

end LanguageClient
