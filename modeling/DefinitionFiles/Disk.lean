import DefinitionFiles.Path

/-!
# Files on disk

A snapshot of the files a program can see: files, directories and symbolic links, each at the
place given by the names from the root down to it, and the directory relative paths start from.
Looking a path up follows links and takes `..` for the real parent, so that it can differ from
what the path says lexically.

There are no permissions and no broken media: whatever stands on a disk can be read, and a path
fails for what it is, never for who asks. Only whether a directory may be watched is left to the
system.
-/

namespace DefinitionFiles

/-- The place of something on disk: the names from the root down to it. -/
abbrev Disk.Place := List Bytes

/-- What stands at a place. -/
inductive Inode where
  | file (content : Bytes)
  | directory
  /-- A symbolic link to a path. -/
  | link (target : Bytes)
  deriving DecidableEq, Repr

/-- Why a path cannot be used. -/
inductive DiskError where
  | notFound
  | notDirectory
  | isDirectory
  | tooManyLinks
  | nameTooLong
  /-- The path has a byte that no path may have. -/
  | invalid
  /-- The system has a reason of its own. -/
  | refused (reason : Bytes)
  deriving DecidableEq, Repr

/-- The wording of the error. -/
def DiskError.message : DiskError → Bytes
  | .notFound => utf8 "no such file or directory"
  | .notDirectory => utf8 "not a directory"
  | .isDirectory => utf8 "is a directory"
  | .tooManyLinks => utf8 "too many levels of symbolic links"
  | .nameTooLong => utf8 "file name too long"
  | .invalid => utf8 "invalid argument"
  | .refused reason => reason

/-- A failed operation on a path. -/
structure FileError where
  operation : String
  path : Bytes
  cause : DiskError
  deriving DecidableEq, Repr

/-- The wording of the error. -/
def FileError.message (e : FileError) : Bytes :=
  utf8 e.operation ++ utf8 " " ++ e.path ++ utf8 ": " ++ e.cause.message

/-- A snapshot of a disk. -/
structure Disk where
  /-- What stands where. The root is a directory and is not listed. -/
  inodes : List (Disk.Place × Inode) := []
  /-- The absolute path of the working directory. -/
  cwd : Bytes := [Path.slash]
  /-- The paths the system does not let anybody watch at the moment, and why. -/
  refusals : List (Bytes × DiskError) := []
  deriving DecidableEq, Repr

namespace Disk

/-- What stands at a place. -/
def inode? (d : Disk) (place : Place) : Option Inode :=
  if place = [] then some .directory else d.inodes.lookup place

/-- Whether a place is a directory. -/
def isDirectory (d : Disk) (place : Place) : Bool :=
  d.inode? place = some .directory

/-- How many links a path may lead through. -/
def maxLinks : Nat := 40

/-- How many bytes a name may have. -/
def maxName : Nat := 255

/-- How many bytes a path may have. -/
def maxPath : Nat := 4095

/-- Follows the segments of a path from a place on. Whatever a segment follows must be a
directory, also before an empty segment or a dot. A link at the end is followed only if `follow`
says so. At a link that is followed, `jump` goes on with its target and what is left of the path. -/
def resolveBy (d : Disk) (follow : Bool)
    (jump : Place → List Bytes → Except DiskError Place) (here : Place) :
    (segments : List Bytes) → Except DiskError Place
  | [] => .ok here
  | segment :: rest =>
      if !d.isDirectory here then .error .notDirectory
      else if segment = [] || segment = Path.dot then d.resolveBy follow jump here rest
      else if segment = Path.dotdot then d.resolveBy follow jump here.dropLast rest
      else if maxName < segment.length then .error .nameTooLong
      else match d.inode? (here ++ [segment]) with
        | none => .error .notFound
        | some (.link target) =>
            if rest = [] && !follow then .ok (here ++ [segment])
            else jump (if Path.isRooted target then [] else here)
              (Bytes.split Path.slash target ++ rest)
        | some _ => d.resolveBy follow jump (here ++ [segment]) rest

/-- Follows the segments of a path from a place on, through no more links than the given number. -/
def resolve (d : Disk) (follow : Bool) :
    (links : Nat) → (here : Place) → (segments : List Bytes) → Except DiskError Place
  | 0 => d.resolveBy follow fun _ _ => .error .tooManyLinks
  | links + 1 => d.resolveBy follow (d.resolve follow links)

/-- The place a path leads to. A link at its end is followed only if `follow` says so. -/
def locate (d : Disk) (follow : Bool) (path : Bytes) : Except DiskError Place :=
  if path = [] then .error .notFound
  else if path.contains 0 then .error .invalid
  else if maxPath < path.length then .error .nameTooLong
  else
    let start := if Path.isRooted path then [] else Path.cleanSegments d.cwd
    d.resolve follow maxLinks start (Bytes.split Path.slash path)

/-- What a path leads to, following links. -/
def stat (d : Disk) (path : Bytes) : Except FileError Inode :=
  match d.locate true path with
  | .error e => .error ⟨"stat", path, e⟩
  | .ok place =>
      match d.inode? place with
      | some inode => .ok inode
      | none => .error ⟨"stat", path, .notFound⟩

/-- The content of the file a path leads to. -/
def read (d : Disk) (path : Bytes) : Except FileError Bytes :=
  match d.locate true path with
  | .error e => .error ⟨"open", path, e⟩
  | .ok place =>
      match d.inode? place with
      | some (.file content) => .ok content
      | some .directory => .error ⟨"read", path, .isDirectory⟩
      | _ => .error ⟨"open", path, .notFound⟩

/-- What stands in the directory at a place, by name. -/
def children (d : Disk) (place : Place) : List (Bytes × Inode) :=
  Bytes.sortOn Prod.fst (d.inodes.filterMap fun (p, inode) =>
    match p.getLast? with
    | some name => if p.dropLast = place then some (name, inode) else none
    | none => none)

/-- What stands in the directory a path leads to, by name. -/
def list (d : Disk) (path : Bytes) : Except FileError (List (Bytes × Inode)) :=
  match d.locate true path with
  | .error e => .error ⟨"open", path, e⟩
  | .ok place =>
      match d.inode? place with
      | some .directory => .ok (d.children place)
      | some _ => .error ⟨"open", path, .notDirectory⟩
      | none => .error ⟨"open", path, .notFound⟩

/-- The path of something in the directory with the given path, by lexical processing. -/
def childPath (path name : Bytes) : Bytes :=
  Path.clean (path ++ Path.slash :: name)

/-- Why the system does not watch what a path leads to, if it does not. -/
def watchError? (d : Disk) (path : Bytes) : Option DiskError :=
  match d.locate true path with
  | .error e => some e
  | .ok _ => d.refusals.lookup path

/-- What is met on the way through a tree, each with its path, and why the way ends early, if it
does. -/
structure Tour where
  met : List (Bytes × Inode) := []
  failure? : Option FileError := none
  deriving DecidableEq, Repr

namespace Tour

/-- Goes on with another tour, unless the first one ends early. -/
def andThen (first next : Tour) : Tour :=
  match first.failure? with
  | some _ => first
  | none => { next with met := first.met ++ next.met }

/-- All that is met, unless the tour ends early. -/
def complete (t : Tour) : Except FileError (List (Bytes × Inode)) :=
  match t.failure? with
  | some e => .error e
  | none => .ok t.met

end Tour

/-- Everything below the directory a path leads to, with the path it is met under: what stands in a
directory comes by name, and right after it what is below it. Each directory is looked up anew by
its cleaned path, which fails where `..` behind a link made the path lead elsewhere; the directory
itself was met by then. Links are met but not followed. The tree is met down to the given depth. -/
def below (d : Disk) : (depth : Nat) → (path : Bytes) → Tour
  | 0, _ => {}
  | depth + 1, path =>
      match d.list path with
      | .error e => { failure? := some e }
      | .ok entries =>
          entries.foldr (fun (name, inode) rest =>
            let child := childPath path name
            let inner := if inode = .directory then d.below depth child else {}
            (({ met := [(child, inode)] } : Tour).andThen inner).andThen rest) {}

/-- The way through the tree a path names, the root first. A path that is a link itself is met as a
link. -/
def tour (d : Disk) (root : Bytes) : Tour :=
  match d.locate false root with
  | .error e => { failure? := some ⟨"lstat", root, e⟩ }
  | .ok place =>
      match d.inode? place with
      | some .directory =>
          ({ met := [(root, .directory)] } : Tour).andThen (d.below (d.inodes.length + 1) root)
      | some inode => { met := [(root, inode)] }
      | none => { failure? := some ⟨"lstat", root, .notFound⟩ }

/-- Everything in the tree a path names, with the path it is met under, the root first. -/
def walk (d : Disk) (root : Bytes) : Except FileError (List (Bytes × Inode)) :=
  (d.tour root).complete

/-- The disk seen from the directory a path leads to. -/
def enter (d : Disk) (path : Bytes) : Except DiskError Disk :=
  (d.locate true path).map fun place => { d with cwd := Path.ofSegments true place }

/-- Replaces what stands at a place. -/
def set (d : Disk) (place : Place) (inode : Inode) : Disk :=
  if place = [] then d
  else { d with inodes := (place, inode) :: d.inodes.filter fun (p, _) => p != place }

/-- Makes a directory at a place unless something is there. -/
def makeDirectory (d : Disk) (place : Place) : Disk :=
  if (d.inode? place).isSome then d else d.set place .directory

/-- Makes the directories that lead to a place. -/
def makeParents (d : Disk) (place : Place) : Disk :=
  (List.range place.length).foldl (fun d n => d.makeDirectory (place.take n)) d

/-- Puts something at a place and makes the directories that lead to it. -/
def put (d : Disk) (place : Place) (inode : Inode) : Disk :=
  (d.makeParents place).set place inode

/-- Makes a directory at a place, and the directories that lead to it. -/
def putDirectory (d : Disk) (place : Place) : Disk :=
  (d.makeParents place).makeDirectory place

/-- Removes what stands at a place and everything below it. -/
def remove (d : Disk) (place : Place) : Disk :=
  { d with inodes := d.inodes.filter fun (p, _) => !place.isPrefixOf p }

end Disk

end DefinitionFiles
