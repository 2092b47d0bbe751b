import LanguageClient.Error
import LanguageClient.Path.Basic
import LanguageClient.Uri.Percent

/-!
# URIs of files

The URI of an absolute path, and the path that a URI names.  A URI is read by the
rules for web addresses: blanks around it and tabs and line breaks inside it are
dropped, dot segments are resolved, and a path is only named when there is no host
or the host is this machine.
-/

set_option autoImplicit false

namespace LanguageClient.Uri

/-- How a component is written in a URI. -/
def segmentText : Path.Component → List Char
  | .root | .current => []
  | .parent => ['.', '.']
  | .normal name => Percent.encode name

/-- The URI of an absolute path. -/
def ofPath? (p : Path) : Option String :=
  if p.isAbsolute then
    let segments := p.components.drop 1
    let path := if segments.isEmpty then ['/'] else segments.flatMap ('/' :: segmentText ·)
    some (String.ofList ("file://".toList ++ path))
  else none

/-- The URI of a path; a relative one is seen from a folder. -/
def ofPathIn (folder p : Path) : Except ClientError String :=
  let whole := folder.join p
  match ofPath? whole with
  | some uri => .ok uri
  | none => .error (.invalidUri whole.display)

/-- What a scheme says about the rest of a URI. -/
inductive Kind where
  /-- Files. -/
  | file
  /-- A web scheme, which needs a host. -/
  | web
  /-- Any other scheme. -/
  | plain
  deriving DecidableEq, Repr

/-- The kind of a scheme in lower case. -/
def Kind.ofScheme (scheme : List Char) : Kind :=
  if scheme = "file".toList then .file
  else if ["http", "https", "ws", "wss", "ftp"].any (·.toList == scheme) then .web
  else .plain

/-- Whether the character is an ASCII letter. -/
def isLetter (c : Char) : Bool :=
  ('a' ≤ c && c ≤ 'z') || ('A' ≤ c && c ≤ 'Z')

/-- Whether the character may follow the first one of a scheme. -/
def inScheme (c : Char) : Bool :=
  isLetter c || Number.isDigit c || c = '+' || c = '-' || c = '.'

/-- The scheme in lower case and what follows its colon. -/
def scheme? (cs : List Char) : Option (List Char × List Char) :=
  match cs.takeWhile inScheme, cs.dropWhile inScheme with
  | first :: others, ':' :: rest =>
    if isLetter first then some ((first :: others).map Char.toLower, rest) else none
  | _, _ => none

/-- A text without blanks and controls around it and without tabs and line breaks. -/
def clean (cs : List Char) : List Char :=
  let blank (c : Char) : Bool := c.toNat ≤ 0x20
  (((cs.dropWhile blank).reverse.dropWhile blank).reverse).filter fun c =>
    c ≠ '\t' ∧ c ≠ '\n' ∧ c ≠ '\r'

/-- Whether the character separates segments. -/
def isSlash (kind : Kind) (c : Char) : Bool :=
  c = '/' || (kind != .plain && c = '\\')

/-- Whether the character ends a path. -/
def endsPath (c : Char) : Bool := c = '?' || c = '#'

/-- Whether the character ends an authority. -/
def endsAuthority (kind : Kind) (c : Char) : Bool :=
  isSlash kind c || endsPath c

/-- The segments between separators. -/
def segments (kind : Kind) : List Char → List (List Char)
  | [] => [[]]
  | c :: rest =>
    if isSlash kind c then [] :: segments kind rest
    else match segments kind rest with
      | [] => [[c]]
      | first :: others => (c :: first) :: others

/-- The dots that a segment spells, if it spells nothing else. -/
def dots? : List Char → Option Nat
  | [] => some 0
  | '.' :: rest => (dots? rest).map (· + 1)
  | '%' :: '2' :: c :: rest => if c = 'e' ∨ c = 'E' then (dots? rest).map (· + 1) else none
  | _ => none

/-- Whether a segment is a letter and a colon or bar, the name of a drive. -/
def isDrive : List Char → Bool
  | [c, d] => isLetter c && (d = ':' || d = '|')
  | _ => false

/-- Leaves the last segment, unless it names a drive. -/
def leave : List (List Char) → List (List Char)
  | [] => []
  | last :: outer => if isDrive last then last :: outer else outer

/-- A drive is written with a colon. -/
def withColon : List Char → List Char
  | [c, _] => [c, ':']
  | segment => segment

/-- Resolves dot segments; `done` are the segments so far in reverse.  A drive in front
of the path of a file is written with a colon. -/
def resolve (kind : Kind) (done : List (List Char)) : List (List Char) → List (List Char)
  | [] => done.reverse
  | segment :: rest =>
    let stay (done : List (List Char)) : List (List Char) :=
      match rest with
      | [] => ([] :: done).reverse
      | _ => resolve kind done rest
    match dots? segment with
    | some 1 => stay done
    | some 2 => stay (leave done)
    | _ =>
      if kind = .file && done.isEmpty && isDrive segment then
        resolve kind [withColon segment] rest
      else resolve kind (segment :: done) rest

/-- The bytes named by resolved segments.  For files, empty segments in front do not
count; a path that ends with a drive ends with a separator. -/
def bytesOf (kind : Kind) (resolved : List (List Char)) : Bytes :=
  let resolved :=
    if kind = .file then
      match resolved.dropWhile List.isEmpty with
      | [] => [[]]
      | kept => kept
    else resolved
  let bytes := resolved.flatMap fun s => 47 :: Percent.decode s
  match bytes.reverse with
  | c :: d :: _ :: _ =>
    if (c = 58 ∨ c = 124) ∧ isLetter (Char.ofNat d.toNat) then bytes ++ [47] else bytes
  | _ => bytes

/-- The segments of the text of a path after its first separator, resolved after those
that are done. -/
def resolvedPath (kind : Kind) (done : List (List Char)) (path : List Char) : List (List Char) :=
  resolve kind done (segments kind (path.takeWhile (!endsPath ·)))

/-- The bytes named by the text of a path after its first separator. -/
def pathBytes (kind : Kind) (path : List Char) : Bytes :=
  bytesOf kind (resolvedPath kind [] path)

/-- Whether a host of a web scheme or file is this machine. -/
def isLocal (host : List Char) : Bool :=
  (Percent.decode host).map (fun b => (Char.ofNat b.toNat).toLower) == "localhost".toList

/-- Whether a port is empty or a number of 16 bits. -/
def isPort (cs : List Char) : Bool :=
  cs.all Number.isDigit && Number.natOfDigits cs < 0x10000

/-- Splits an authority into host and port, without the user in front. -/
def hostAndPort (authority : List Char) : List Char × Option (List Char) :=
  let host := (authority.reverse.takeWhile (· ≠ '@')).reverse
  match host.dropWhile (· ≠ ':') with
  | ':' :: port => (host.takeWhile (· ≠ ':'), some port)
  | _ => (host, none)

/-- Whether an authority names this machine. -/
def isLocalAuthority (kind : Kind) (authority : List Char) : Bool :=
  let (host, port) := hostAndPort authority
  let hostIsLocal :=
    match kind with
    | .plain => host == "localhost".toList || authority.isEmpty
    | _ => isLocal host
  hostIsLocal && (port.elim true isPort)

/-- The path after an authority; other schemes than those with a host need one. -/
def afterAuthority (kind : Kind) (rest : List Char) : Option Bytes :=
  match rest with
  | c :: path => if isSlash kind c then some (pathBytes kind path)
    else if kind = .plain then none else some (pathBytes kind (c :: path))
  | [] => if kind = .plain then none else some (pathBytes kind [])

/-- The path of a file after an authority that names this machine: the separator in
front of it counts as an empty segment. -/
def localFile (rest : List Char) : Bytes :=
  match rest with
  | c :: path =>
    bytesOf .file (resolvedPath .file (if isSlash .file c then [[]] else [])
      (if isSlash .file c then path else c :: path))
  | [] => pathBytes .file []

/-- Whether a character may not stand in the name of a machine. -/
def isForbidden (c : Char) : Bool :=
  c.toNat ≤ 0x20 || c.toNat = 0x7f || "#/:<>?@[\\]^|%".toList.contains c

/-- Whether a text can name a machine. -/
def isHost (host : List Char) : Bool :=
  match host with
  | [] => false
  | '[' :: inner => inner.getLast? == some ']'
  | _ => !((Percent.decode host).any fun b => isForbidden (Char.ofNat b.toNat))

/-- The path of a file on another machine: only a path that starts with a drive is taken
to be on this one. -/
def foreignFile (host rest : List Char) : Option Bytes :=
  let path := match rest with
    | c :: path => if isSlash .file c then path else c :: path
    | [] => []
  match resolvedPath .file [] path with
  | first :: others =>
    if isHost host && isDrive first then some (bytesOf .file (first :: others)) else none
  | [] => none

/-- The path of a file URI after its colon. -/
def filePath (rest : List Char) : Option Bytes :=
  match rest with
  | a :: b :: authority =>
    if isSlash .file a && isSlash .file b then
      let host := authority.takeWhile (!endsAuthority .file ·)
      let path := authority.dropWhile (!endsAuthority .file ·)
      if isDrive host then some (pathBytes .file authority)
      else if host.isEmpty || isLocal host then some (localFile path)
      else foreignFile host path
    else if isSlash .file a then some (pathBytes .file (b :: authority))
    else some (pathBytes .file rest)
  | [a] => if isSlash .file a then some (pathBytes .file []) else some (pathBytes .file rest)
  | [] => some (pathBytes .file [])

/-- The path of a URI of any other scheme after its colon. -/
def otherPath (kind : Kind) (rest : List Char) : Option Bytes :=
  match kind, rest with
  | .plain, '/' :: '/' :: rest =>
    let authority := rest.takeWhile (!endsAuthority .plain ·)
    if isLocalAuthority .plain authority then
      afterAuthority .plain (rest.dropWhile (!endsAuthority .plain ·))
    else none
  | .plain, '/' :: path => some (pathBytes .plain path)
  | .plain, _ => none
  | kind, rest =>
    let rest := rest.dropWhile (isSlash kind)
    let authority := rest.takeWhile (!endsAuthority kind ·)
    if isLocalAuthority kind authority then
      afterAuthority kind (rest.dropWhile (!endsAuthority kind ·))
    else none

/-- The path that a URI names. -/
def toPath? (uri : String) : Option Path := do
  let (scheme, rest) ← scheme? (clean uri.toList)
  let bytes ← match Kind.ofScheme scheme with
    | .file => filePath rest
    | kind => otherPath kind rest
  return ⟨bytes⟩

end LanguageClient.Uri
