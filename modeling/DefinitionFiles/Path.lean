import DefinitionFiles.Text.Bytes

/-!
# Slash-separated paths

Paths are byte texts whose segments are separated by slashes; a path that starts with a slash is
rooted. The operations here are lexical and never look at a disk.
-/

namespace DefinitionFiles.Path

/-- The slash byte. -/
abbrev slash : UInt8 := 0x2F

/-- The segment that names the directory it stands in. -/
abbrev dot : Bytes := [0x2E]

/-- The segment that names the parent directory. -/
abbrev dotdot : Bytes := [0x2E, 0x2E]

/-- Whether a path starts at the root. -/
def isRooted (p : Bytes) : Bool :=
  p.head? = some slash

/-- Adds a segment to the segments of a cleaned path, which are kept last first: empty segments
and `.` vanish, and `..` takes back the segment before it. What is left of `..` at the front is
dropped in a rooted path and kept otherwise. -/
def pushSegment (rooted : Bool) (done : List Bytes) (segment : Bytes) : List Bytes :=
  if segment = [] || segment = dot then done
  else if segment = dotdot then
    match done with
    | last :: rest => if last = dotdot then dotdot :: done else rest
    | [] => if rooted then [] else [dotdot]
  else segment :: done

/-- The segments of the shortest equivalent form of `p`. -/
def cleanSegments (p : Bytes) : List Bytes :=
  ((Bytes.split slash p).foldl (pushSegment (isRooted p)) []).reverse

/-- The path with the given segments; without segments it is `/` or `.`. -/
def ofSegments (rooted : Bool) (segments : List Bytes) : Bytes :=
  if rooted then slash :: Bytes.join [slash] segments
  else if segments = [] then dot
  else Bytes.join [slash] segments

/-- The shortest path equivalent to `p` by lexical processing alone. -/
def clean (p : Bytes) : Bytes :=
  ofSegments (isRooted p) (cleanSegments p)

/-- Everything up to and including the last slash. -/
def upToLastSlash (p : Bytes) : Bytes :=
  (p.reverse.dropWhile (· != slash)).reverse

/-- Everything after the last slash. -/
def lastElement (p : Bytes) : Bytes :=
  (p.reverse.takeWhile (· != slash)).reverse

/-- The cleaned directory part of a path. -/
def dir (p : Bytes) : Bytes :=
  clean (upToLastSlash p)

/-- The last element of a path, not counting slashes at its end: `.` for the empty path and `/`
for a path of slashes only. -/
def base (p : Bytes) : Bytes :=
  if p = [] then dot
  else
    let stripped := (p.reverse.dropWhile (· == slash)).reverse
    if stripped = [] then [slash] else lastElement stripped

/-- The extension of a path: its last element from the last dot on, or nothing. -/
def ext (p : Bytes) : Bytes :=
  match Bytes.cutLast? 0x2E (lastElement p) with
  | some (_, suffix) => 0x2E :: suffix
  | none => []

/-- The cleaned absolute form of `p`, seen from the absolute directory `cwd`. -/
def absolute (cwd p : Bytes) : Bytes :=
  if isRooted p then clean p else clean (cwd ++ slash :: p)

/-- The name of `p` relative to the directory `base`, when both are rooted and `p` lies in or
below it. -/
def below? (base p : Bytes) : Option Bytes :=
  if isRooted base && isRooted p then
    let outer := cleanSegments base
    let inner := cleanSegments p
    if outer.isPrefixOf inner then some (ofSegments false (inner.drop outer.length)) else none
  else none

end DefinitionFiles.Path
