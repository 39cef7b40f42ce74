import DefinitionFiles.Category
import DefinitionFiles.Uri.Address

/-!
# Document URIs

Editors name documents by URI, the workspace by path. A file URI is built from a path by percent
encoding; a URI is read back with the generic syntax of URIs, and anything that does not follow it
is taken for a path as it stands.
-/

namespace DefinitionFiles.Uri

/-- The parts of a URI a path is made of. -/
structure Location where
  scheme : Bytes
  host : Bytes
  path : Bytes
  deriving DecidableEq, Repr

/-- The places percent escapes are undone in. They differ in what they allow. -/
inductive Place where
  /-- Paths, fragments and user names: every escape is allowed. -/
  | free
  /-- Host names: only non-ASCII bytes and the percent sign are escaped, and only host bytes stand
  for themselves. -/
  | host
  /-- The zone of a scoped address: escapes are allowed for host bytes and the space too. -/
  | zone
  deriving DecidableEq, Repr

/-- The bytes that need no escape anywhere: letters, digits and `-_.~`. -/
def isUnreserved (b : UInt8) : Bool :=
  Bytes.isLetter b || Bytes.isDigit b || (utf8 "-_.~").contains b

/-- The ASCII bytes that may stand in a host name. -/
def isHostByte (b : UInt8) : Bool :=
  isUnreserved b || (utf8 "!$&'()*+,;=:[]<>\"").contains b

/-- Whether an unescaped byte is allowed at a place. -/
def allowsByte (place : Place) (b : UInt8) : Bool :=
  match place with
  | .free => true
  | .host | .zone => 0x80 ≤ b || isHostByte b

/-- Whether an escape of the byte `b` is allowed at a place. -/
def allowsEscape (place : Place) (b : UInt8) : Bool :=
  match place with
  | .free => true
  | .host => 0x80 ≤ b || b = 0x25
  | .zone => b = 0x25 || b = 0x20 || isHostByte b

/-- Undoes the percent escapes of `s`, or fails at an incomplete or forbidden one. -/
def unescape? (place : Place) : Bytes → Option Bytes
  | [] => some []
  | 0x25 :: hi :: lo :: rest =>
      match Bytes.hexValue? hi, Bytes.hexValue? lo with
      | some h, some l =>
          let b := (16 * h + l).toUInt8
          if allowsEscape place b then (unescape? place rest).map (b :: ·) else none
      | _, _ => none
  | b :: rest =>
      if b = 0x25 then none
      else if allowsByte place b then (unescape? place rest).map (b :: ·) else none

/-- Whether `s` is empty or a colon followed by digits. -/
def isOptionalPort : Bytes → Bool
  | [] => true
  | b :: digits => b = 0x3A && digits.all Bytes.isDigit

/-- Reads an address in brackets, given what stands between them. A zone starts at `%25`. -/
def address? (inner : Bytes) : Option Bytes := do
  let zone := (Bytes.find? (utf8 "%25") inner).getD inner.length
  let address := (← unescape? .host (inner.take zone)) ++ (← unescape? .zone (inner.drop zone))
  if isAddress address then return address else none

/-- Reads a host with an optional port. A bracket opens a numeric address, and only at the front
of the host. -/
def host? (s : Bytes) : Option Bytes :=
  if s.contains 0x5B then do
    let (front, port) ← Bytes.cutLast? 0x5D s
    if front.head? != some 0x5B || front.tail.contains 0x5B || !isOptionalPort port then none
    return 0x5B :: (← address? front.tail) ++ 0x5D :: (← unescape? .host port)
  else
    match Bytes.cutLast? 0x3A s with
    | some (_, port) => if port.all Bytes.isDigit then unescape? .host s else none
    | none => unescape? .host s

/-- Whether `b` may stand in the user part of an authority. -/
def isUserByte (b : UInt8) : Bool :=
  isUnreserved b || (utf8 ":!$&'()*+,;=%@").contains b

/-- Reads the host of an authority, checking the user part before the last `@`. -/
def authorityHost? (s : Bytes) : Option Bytes :=
  match Bytes.cutLast? 0x40 s with
  | none => host? s
  | some (user, host) => do
      let host ← host? host
      if !user.all isUserByte then none
      let _ ← unescape? .free user
      return host

/-- Splits a scheme off a URI: a letter, then letters, digits and `+-.` up to a colon. -/
def scheme? (s : Bytes) : Option (Bytes × Bytes) := do
  let (scheme, rest) ← Bytes.cut? 0x3A s
  let first ← scheme.head?
  if Bytes.isLetter first
      && scheme.all fun b => Bytes.isLetter b || Bytes.isDigit b || (utf8 "+-.").contains b then
    return (scheme, rest)
  else none

/-- Whether `b` is an ASCII control byte. -/
def isControl (b : UInt8) : Bool :=
  b < 0x20 || b = 0x7F

/-- Reads the hierarchical part of a URI: an authority after two slashes, and the path. A part
that does not start with a slash has neither. -/
def hierarchy? (scheme rest : Bytes) : Option Location :=
  match rest with
  | 0x2F :: 0x2F :: rest => do
      let (authority, path) := rest.span (· != Path.slash)
      return ⟨scheme, ← authorityHost? authority, ← unescape? .free path⟩
  | 0x2F :: _ => (unescape? .free rest).map fun path => ⟨scheme, [], path⟩
  | _ => some ⟨scheme, [], []⟩

/-- Reads a URI that has a scheme. Query and fragment are cut off, but an ill-formed fragment
spoils the URI. -/
def parse? (s : Bytes) : Option Location := do
  let (main, fragment) := (Bytes.cut? 0x23 s).getD (s, [])
  if main.any isControl then none
  let (scheme, rest) ← scheme? main
  let location ← hierarchy? scheme (rest.takeWhile (· != 0x3F))
  let _ ← unescape? .free fragment
  return location

/-- Drops the slash in front of a drive letter: `/c:/dir` becomes `c:/dir`. -/
def dropDriveSlash : Bytes → Bytes
  | 0x2F :: drive :: 0x3A :: rest => drive :: 0x3A :: rest
  | p => p

/-- The slash-separated path behind a document URI. What is no URI stays as it is, and so does
what has a one-letter scheme, since that is a drive letter. A host other than `localhost` becomes
part of the path. -/
def toPath (uri : Bytes) : Bytes :=
  match parse? uri with
  | none => uri
  | some location =>
      if location.scheme.length = 1 then uri
      else if location.host = [] || location.host = utf8 "localhost" then
        dropDriveSlash location.path
      else dropDriveSlash (utf8 "//" ++ location.host ++ location.path)

/-- The file name of a document URI or path. -/
def baseName (uri : Bytes) : Bytes :=
  Path.base (Bytes.replaceByte 0x5C Path.slash (toPath uri))

/-- The category of the path behind a document URI. -/
def classify (uri : Bytes) : Category :=
  Category.classify (toPath uri)

/-- The bytes that stand for themselves in the path of a URI. -/
def isPathByte (b : UInt8) : Bool :=
  isUnreserved b || (utf8 "$&+,/:;=@").contains b

/-- The percent encoding of a path. -/
def escape (p : Bytes) : Bytes :=
  p.flatMap fun b =>
    if isPathByte b then [b]
    else [0x25, Bytes.upperHexDigit (b.toNat / 16), Bytes.upperHexDigit (b.toNat % 16)]

/-- The file URI of a path, seen from the absolute directory `cwd`. -/
def ofPath (cwd p : Bytes) : Bytes :=
  utf8 "file://" ++ escape (Path.absolute cwd p)

end DefinitionFiles.Uri
