import DefinitionFiles.Disk
import DefinitionFiles.Outline
import DefinitionFiles.Store
import DefinitionFiles.Text.CaseFolding

/-!
# Workspaces

A workspace is the definition files under some roots: every root that is a file, and in every root
that is a directory the files with one of the extensions. Scanning reads them all in the order of
their absolute paths.
-/

namespace DefinitionFiles

/-- What was found in one file. -/
structure FileResult where
  path : Bytes
  definition? : Option Definition
  diagnostics : List Diagnostic
  deriving DecidableEq, Repr

/-- Whether any diagnostic of a file is an error. -/
def FileResult.hasErrors (r : FileResult) : Bool :=
  r.diagnostics.any fun d => d.severity = .error

/-- The files under some roots, and how they are read. -/
structure Workspace where
  /-- Files and directories. -/
  roots : List Bytes
  /-- The extensions of definition files, in any letter case. -/
  extensions : List Bytes := [utf8 ".dfn"]
  /-- How many files are read at a time; it has no influence on what is found. -/
  concurrency : Int := 0
  dialect : Dialect := {}
  deriving DecidableEq, Repr

namespace Workspace

/-- What something on disk was looked at for. -/
inductive Aim where
  /-- To list the files under a root. -/
  | files (root : Bytes)
  /-- To watch the directories of a tree. -/
  | directories
  /-- To watch the directory that a single file stands in. -/
  | parent
  deriving DecidableEq, Repr

/-- Why a workspace could not be read or watched. -/
inductive Error where
  | badRoot (root : Bytes) (cause : FileError)
  | walkFailed (aim : Aim) (cause : FileError)
  | unreadable (cause : FileError)
  | cancelled
  deriving DecidableEq, Repr

/-- The wording of the error. -/
def Error.message : Error → Bytes
  | .badRoot root cause => utf8 "stat " ++ root ++ utf8 ": " ++ cause.message
  | .walkFailed (.files root) cause => utf8 "walk " ++ root ++ utf8 ": " ++ cause.message
  | .walkFailed .directories cause => cause.message
  | .walkFailed .parent cause => cause.cause.message
  | .unreadable cause => utf8 "failed to read file: " ++ cause.message
  | .cancelled => utf8 "context canceled"

/-- The workspace with the given extensions, or with those it has if none are given. -/
def withExtensions (w : Workspace) (extensions : List Bytes) : Workspace :=
  if extensions = [] then w else { w with extensions := extensions }

/-- Whether a path has one of the extensions. -/
def isMatch (w : Workspace) (path : Bytes) : Bool :=
  w.extensions.any fun e => sameFolded (Path.ext path) e

/-- The files one root stands for, as paths that may be relative. -/
def rootFiles (w : Workspace) (d : Disk) (root : Bytes) : Except Error (List Bytes) :=
  match d.stat root with
  | .error e => .error (.badRoot root e)
  | .ok .directory =>
      match d.walk root with
      | .error e => .error (.walkFailed (.files root) e)
      | .ok found => .ok (found.filterMap fun (path, inode) =>
          if inode != .directory && w.isMatch path then some path else none)
  | .ok _ => .ok [root]

/-- The absolute paths of the definition files, ascending and each once. -/
def files (w : Workspace) (d : Disk) : Except Error (List Bytes) := do
  let found ← w.roots.mapM (w.rootFiles d)
  return Bytes.sort (found.flatten.map (Path.absolute d.cwd)).eraseDups

/-- Reads one file. -/
def examine (w : Workspace) (d : Disk) (path : Bytes) : Except FileError FileResult :=
  match d.read path with
  | .error e => .error e
  | .ok text =>
      let (definition, diagnostics) := Definition.parse w.dialect (Uri.ofPath d.cwd path) text
      .ok { path := path, definition? := some definition, diagnostics := diagnostics }

/-- Reads the files with the given paths. -/
def examineAll (w : Workspace) (d : Disk) : List Bytes → Except Error (List FileResult)
  | [] => .ok []
  | path :: rest =>
      match w.examine d path with
      | .error e => .error (.unreadable e)
      | .ok result => (w.examineAll d rest).map (result :: ·)

/-- Reads every file of the workspace, unless the work was cancelled. -/
def scan (w : Workspace) (d : Disk) (cancelled : Bool) : Except Error (List FileResult) := do
  let files ← w.files d
  if cancelled then .error .cancelled else w.examineAll d files

end Workspace

/-- Records what was found in files. -/
def Store.record (s : Store) (results : List FileResult) : Store :=
  (results.filterMap FileResult.definition?).foldl Store.append s

end DefinitionFiles
