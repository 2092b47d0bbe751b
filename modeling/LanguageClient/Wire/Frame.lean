import LanguageClient.Number.Digits
import LanguageClient.Text.Blank
import LanguageClient.Text.Utf8

/-!
# Frames

A frame is a block of header lines, an empty line, and a body of as many bytes as
the header says.  `scan` reads the first frame of a byte sequence; what it says
about a sequence it also says about every longer one, except that an incomplete
frame may still be completed.
-/

set_option autoImplicit false

namespace LanguageClient.Frame

/-- The greatest body that is accepted, in bytes. -/
def maxBody : Nat := 64 * 1024 * 1024

/-- The frame of a body. -/
def encode (body : Bytes) : Bytes :=
  Utf8.encode "Content-Length: " ++ Utf8.encode (String.ofList (Number.natText body.length)) ++
    [13, 10, 13, 10] ++ body

/-- Why a header block is refused. -/
inductive Fault where
  | notAscii
  | noColon (header : String)
  | badLength (value : String)
  | unknownHeader (key : String)
  | missingLength
  | tooLong (length : Nat)
  deriving DecidableEq, Repr

/-- The text of a fault. -/
def Fault.message : Fault → String
  | .notAscii => "header line is not ASCII"
  | .noColon header => "malformed header: " ++ header
  | .badLength value => "invalid Content-Length: " ++ value
  | .unknownHeader key => "unknown header: " ++ key
  | .missingLength => "missing Content-Length header"
  | .tooLong length =>
    "Content-Length " ++ toString length ++ " exceeds the " ++ toString maxBody ++ " byte limit"

/-- What a header line says. -/
inductive Header where
  /-- The empty line that ends the block. -/
  | last
  /-- The length of the body. -/
  | length (n : Nat)
  /-- A header that carries nothing of use. -/
  | ignored
  deriving DecidableEq, Repr

/-- Whether a text is the given one up to the case of ASCII letters. -/
def sameName (a b : List Char) : Bool :=
  a.map Char.toLower == b.map Char.toLower

/-- The length that a header value states: an optional plus sign and decimal digits
of a number that fits 64 bits. -/
def lengthValue? (value : List Char) : Option Nat :=
  let digits := match value with
    | '+' :: rest => rest
    | rest => rest
  (Number.ofDigits? 10 digits).filter (· < 0x10000000000000000)

/-- Reads a header line given without its line feed. -/
def readLine (line : Bytes) : Except Fault Header :=
  if line.any (0x80 ≤ ·) then .error .notAscii
  else
    let header := Text.trimEnd (fun c => c = '\r' || c = '\n') (line.map fun b => Char.ofNat b.toNat)
    if header.isEmpty then .ok .last
    else
      match header.dropWhile (· ≠ ':') with
      | [] => .error (.noColon (String.ofList header))
      | _ :: value =>
        let key := Text.trim (header.takeWhile (· ≠ ':'))
        if sameName key "Content-Length".toList then
          let value := Text.trim value
          match lengthValue? value with
          | some n => .ok (.length n)
          | none => .error (.badLength (String.ofList value))
        else if sameName key "Content-Type".toList then .ok .ignored
        else .error (.unknownHeader (String.ofList key))

/-- What a byte sequence starts with. -/
inductive Scan where
  /-- No more than a part of a frame. -/
  | incomplete
  | fault (f : Fault)
  /-- A frame's body, and the bytes after the frame. -/
  | frame (body rest : Bytes)
  deriving DecidableEq, Repr

/-- Reads the body after a header block. -/
def scanBody (length : Option Nat) (bytes : Bytes) : Scan :=
  match length with
  | none => .fault .missingLength
  | some n =>
    if maxBody < n then .fault (.tooLong n)
    else if bytes.length < n then .incomplete
    else .frame (bytes.take n) (bytes.drop n)

/-- Reads on in a header block: `line` is the current line in reverse, `length` the
last length stated. -/
def scanHeader (line : Bytes) (length : Option Nat) : Bytes → Scan
  | [] => .incomplete
  | b :: rest =>
    if b = 10 then
      match readLine line.reverse with
      | .error f => .fault f
      | .ok .last => scanBody length rest
      | .ok (.length n) => scanHeader [] (some n) rest
      | .ok .ignored => scanHeader [] length rest
    else scanHeader (b :: line) length rest

/-- Reads the first frame of a byte sequence. -/
def scan (bytes : Bytes) : Scan :=
  scanHeader [] none bytes

/-- A frame uses up at least one byte. -/
theorem length_lt_of_scanHeader {line bytes body rest : Bytes} {length : Option Nat}
    (h : scanHeader line length bytes = .frame body rest) : rest.length < bytes.length := by
  induction bytes generalizing line length with
  | nil => simp [scanHeader] at h
  | cons b bytes ih =>
    simp only [scanHeader] at h
    split at h
    · split at h
      · simp at h
      · unfold scanBody at h
        split at h
        · simp at h
        · split at h
          · simp at h
          · split at h
            · simp at h
            · simp only [Scan.frame.injEq] at h
              rw [← h.2]
              simp only [List.length_drop, List.length_cons]
              omega
      · have := ih h
        simp only [List.length_cons]
        omega
      · have := ih h
        simp only [List.length_cons]
        omega
    · have := ih h
      simp only [List.length_cons]
      omega

/-- A frame uses up at least one byte. -/
theorem length_lt_of_scan {bytes body rest : Bytes} (h : scan bytes = .frame body rest) :
    rest.length < bytes.length :=
  length_lt_of_scanHeader h

/-- The bodies of the frames that a byte sequence starts with, and what comes after
them: a fault, or the bytes of an incomplete frame. -/
def drain (bytes : Bytes) : List Bytes × Except Fault Bytes :=
  match h : scan bytes with
  | .incomplete => ([], .ok bytes)
  | .fault f => ([], .error f)
  | .frame body rest =>
    have := length_lt_of_scan h
    let (bodies, stop) := drain rest
    (body :: bodies, stop)
  termination_by bytes.length

/-- The bodies of the frames that a byte sequence starts with, and what stopped the
reading: a fault, or the end of the sequence. -/
def split (bytes : Bytes) : List Bytes × Option Fault :=
  let (bodies, stop) := drain bytes
  (bodies, match stop with | .error f => some f | .ok _ => none)

end LanguageClient.Frame
