import DefinitionFiles.Log
import DefinitionFiles.Workspace

/-!
# Watching files

A watcher follows the roots of a workspace: the directories below them, and roots that are single
files. A change of a wanted file is not examined at once but waits until the file has been quiet
for a while. The watcher is told what happens on disk by events, and when the waiting is over.
-/

namespace DefinitionFiles

/-- What happened to a path. -/
structure DiskEvent where
  path : Bytes
  created : Bool := false
  written : Bool := false
  removed : Bool := false
  renamed : Bool := false
  touched : Bool := false
  deriving DecidableEq, Repr

/-- The name of what happened. -/
def DiskEvent.name (e : DiskEvent) : Bytes :=
  Bytes.join (utf8 "|") ([(e.created, "CREATE"), (e.removed, "REMOVE"), (e.written, "WRITE"),
    (e.renamed, "RENAME"), (e.touched, "CHMOD")].filterMap fun (happened, word) =>
      if happened then some (utf8 word) else none)

/-- What happened between two snapshots of a disk. -/
def DiskEvent.between (old new : Disk) : List DiskEvent :=
  let path := fun (place : Disk.Place) => Path.ofSegments true place
  let gone := old.inodes.filterMap fun (place, _) =>
    if (new.inode? place).isNone then some { path := path place, removed := true } else none
  let changed := new.inodes.filterMap fun (place, inode) =>
    match old.inode? place with
    | none => some { path := path place, created := true }
    | some before =>
        if before = inode then none else some { path := path place, written := true }
  gone ++ changed

/-- The state of a watcher. -/
structure Watcher where
  workspace : Workspace
  /-- The absolute paths of the roots that are single files. -/
  files : List Bytes := []
  /-- The absolute paths of the watched directories. -/
  directories : List Bytes := []
  /-- The paths that wait to be quiet, the one that waits longest first. -/
  pending : List Bytes := []
  /-- What was found, newest first. -/
  results : List FileResult := []
  /-- The log, newest entry first. -/
  log : List Log.Entry := []

namespace Watcher

/-- Adds an entry to the log. -/
def note (w : Watcher) (level : Log.Level) (fields : List (String × Log.Value))
    (message : Bytes) : Watcher :=
  { w with log := (Log.entry level fields message).from "watch" :: w.log }

/-- Watches a directory that is not watched yet, if the system lets it. -/
def register (w : Watcher) (d : Disk) (path : Bytes) : Watcher × Option FileError :=
  if w.directories.contains path then (w, none)
  else
    match d.watchError? path with
    | some cause => (w, some ⟨"watch", path, cause⟩)
    | none => ({ w with directories := w.directories ++ [path] }, none)

/-- Watches the directories among some things, up to the first one that cannot be watched. -/
def registerAll (w : Watcher) (d : Disk) : List (Bytes × Inode) → Watcher × Option FileError
  | [] => (w, none)
  | (path, inode) :: rest =>
      if inode = .directory then
        match w.register d path with
        | (w, some e) => (w, some e)
        | (w, none) => w.registerAll d rest
      else w.registerAll d rest

/-- Watches the directories of a tree as they are met. Those met before a failure stay watched. -/
def addTree (w : Watcher) (d : Disk) (root : Bytes) : Watcher × Option FileError :=
  let tour := d.tour root
  match w.registerAll d tour.met with
  | (w, some e) => (w, some e)
  | (w, none) => (w, tour.failure?)

/-- Watches a single file through the directory it stands in. -/
def addFile (w : Watcher) (d : Disk) (path : Bytes) : Watcher × Option FileError :=
  let files := if w.files.contains path then w.files else w.files ++ [path]
  ({ w with files := files },
    (d.watchError? (Path.dir path)).map fun cause => ⟨"watch", Path.dir path, cause⟩)

/-- Watches a root: a single file, or the directories of a tree. -/
def addRoot (w : Watcher) (d : Disk) (root : Bytes) : Watcher × Option Workspace.Error :=
  let path := Path.absolute d.cwd root
  match d.stat path with
  | .error e => (w, some (.badRoot root e))
  | .ok .directory =>
      let (w, e?) := w.addTree d path
      (w, e?.map (.walkFailed .directories))
  | .ok _ =>
      let (w, e?) := w.addFile d path
      (w, e?.map (.walkFailed .parent))

/-- Watches roots up to the first one that cannot be watched. -/
def addRoots (w : Watcher) (d : Disk) : List Bytes → Watcher × Option Workspace.Error
  | [] => (w, none)
  | root :: rest =>
      match w.addRoot d root with
      | (w, some e) => (w, some e)
      | (w, none) => w.addRoots d rest

/-- Starts to watch the roots of the workspace. -/
def start (w : Watcher) (d : Disk) : Watcher × Option Workspace.Error :=
  match w.addRoots d w.workspace.roots with
  | (w, some e) => (w, some e)
  | (w, none) =>
      (w.note .info [("directories", .int w.directories.length), ("files", .int w.files.length)]
        (utf8 "watching"), none)

/-- Stops watching; nothing waits any more. -/
def stop (w : Watcher) : Watcher :=
  { w.note .info [] (utf8 "stopped") with pending := [] }

/-- Whether changes of a path are of interest: it is a root, or it has one of the extensions and
its directory is watched. -/
def isWanted (w : Watcher) (path : Bytes) : Bool :=
  w.files.contains path || (w.directories.contains (Path.dir path) && w.workspace.isMatch path)

/-- Lets a path wait to be quiet. If it waits already, it starts anew. -/
def schedule (w : Watcher) (path : Bytes) : Watcher :=
  { w with pending := w.pending.filter (· != path) ++ [path] }

/-- Whether an event tells of a new directory in a watched one. -/
def isNewDirectory (w : Watcher) (d : Disk) (e : DiskEvent) : Bool :=
  e.created && w.directories.contains (Path.dir e.path) &&
    match d.stat e.path with
    | .ok .directory => true
    | _ => false

/-- Handles an event. A new directory is watched with all those below it; a new or changed file
that is wanted waits to be quiet; a directory that is gone is not watched any more. -/
def handle (w : Watcher) (d : Disk) (e : DiskEvent) : Watcher :=
  if e.created || e.written then
    if w.isNewDirectory d e then
      match w.addTree d e.path with
      | (w, none) => w
      | (w, some cause) =>
          w.note .warn [("error", .text cause.message), ("dir", .text e.path)]
            (utf8 "failed to watch new directory")
    else if w.isWanted e.path then w.schedule e.path
    else w
  else if e.removed || e.renamed then
    let w := { w with directories := w.directories.filter (· != e.path) }
    if w.isWanted e.path then
      w.note .info [("file", .text e.path), ("op", .text e.name)] (utf8 "file removed")
    else w
  else w

/-- Examines a file. One that is gone again is passed over. -/
def examine (w : Watcher) (d : Disk) (path : Bytes) : Watcher :=
  match w.workspace.examine d path with
  | .error e =>
      if e.cause = .notFound then w
      else
        w.note .warn [("error", .text (Workspace.Error.unreadable e).message),
          ("file", .text path)] (utf8 "failed to parse")
  | .ok result =>
      let w := w.note .debug
        [("file", .text path), ("diagnostics", .int result.diagnostics.length)] (utf8 "parsed")
      { w with results := result :: w.results }

/-- Examines the path that waits longest, after it has been quiet. -/
def fire? (w : Watcher) (d : Disk) : Option Watcher :=
  match w.pending with
  | [] => none
  | path :: rest => some ({ w with pending := rest }.examine d path)

/-- Examines every path that waits. -/
def settle (w : Watcher) (d : Disk) : Watcher :=
  w.pending.foldl (fun w path => w.examine d path) { w with pending := [] }

end Watcher

end DefinitionFiles
