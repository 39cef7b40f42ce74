import DefinitionFiles.Json
import DefinitionFiles.Sink
import DefinitionFiles.Text.Columns
import DefinitionFiles.Workspace

/-!
# Reports

What was found in files is reported as lines of text, one for each diagnostic, or as JSON. Paths
below the working directory are shown relative to it.
-/

namespace DefinitionFiles

/-- How often something was found. -/
structure Summary where
  files : Nat
  errors : Nat
  warnings : Nat
  deriving DecidableEq, Repr

namespace Summary

/-- Counts files and their diagnostics. -/
def ofResults (results : List FileResult) : Summary :=
  let diagnostics := results.flatMap FileResult.diagnostics
  { files := results.length
    errors := (Diagnostic.withSeverity .error diagnostics).length
    warnings := (Diagnostic.withSeverity .warning diagnostics).length }

/-- Whether what was found is a failure. Warnings count only if `strict` says so. -/
def isFailure (strict : Bool) (s : Summary) : Bool :=
  0 < s.errors || (strict && 0 < s.warnings)

/-- A count with a noun, which is singular for one only. -/
def counted (n : Nat) (noun : String) : Bytes :=
  Bytes.decimal n ++ utf8 " " ++ utf8 noun ++ (if n = 1 then [] else utf8 "s")

/-- The line that closes a report. -/
def line (s : Summary) : Bytes :=
  Bytes.join (utf8 ", ")
    [counted s.files "file", counted s.errors "error", counted s.warnings "warning"] ++ utf8 "\n"

/-- The JSON form of a summary. -/
def toJson (s : Summary) : Json :=
  .record [("files", .int s.files), ("errors", .int s.errors), ("warnings", .int s.warnings)]

end Summary

namespace Report

/-- The formats of a report. -/
inductive Format where
  | text
  | json
  deriving DecidableEq, Repr

/-- A name that belongs to no format. -/
structure UnknownFormat where
  name : Bytes
  deriving DecidableEq, Repr

/-- The wording of the error. -/
def UnknownFormat.message (e : UnknownFormat) : Bytes :=
  utf8 "unknown format " ++ quoted e.name

/-- The format with the given name. -/
def Format.ofName (name : Bytes) : Except UnknownFormat Format :=
  if name = utf8 "text" then .ok .text
  else if name = utf8 "json" then .ok .json
  else .error ⟨name⟩

/-- The name a path is shown under: relative to the directory `base` if it lies below it and the
relative name does not start with two dots, and as it is otherwise. -/
def shownPath (base path : Bytes) : Bytes :=
  match Path.below? base path with
  | some rest => if Path.dotdot.isPrefixOf rest then path else rest
  | none => path

/-- The lines of a text; a carriage return before a line feed belongs to the line end. -/
def rows (s : Bytes) : List Bytes :=
  let pieces := Bytes.split Bytes.lf s
  pieces.dropLast.map chomp ++ pieces.getLast?.toList

/-- A text as a block on a terminal: a tab is four spaces, and every line is filled up to the
widest of them. -/
def block (s : Bytes) : Bytes :=
  let spaced := s.flatMap fun b => if b = 0x09 then List.replicate 4 0x20 else [b]
  let lines := (rows spaced).map fun line => (line, Columns.count line)
  let widest := lines.foldl (fun n (_, width) => max n width) 0
  Bytes.join [Bytes.lf] (lines.map fun (line, width) =>
    line ++ List.replicate (widest - width) 0x20)

/-- Where a diagnostic stands: at a line and column counted from one, or in the file as a
whole. -/
def location (path : Bytes) (d : Diagnostic) : Bytes :=
  if d.isAtEnd then path
  else path ++ utf8 ":" ++ Bytes.signedDecimal (d.line + 1) ++ utf8 ":" ++
    Bytes.signedDecimal (d.startColumn + 1)

/-- The lines of text for a file, one for each diagnostic. -/
def fileLines (base : Bytes) (r : FileResult) : List Bytes :=
  r.diagnostics.map fun d =>
    block (location (shownPath base r.path) d) ++ utf8 ": " ++ d.severity.name ++ utf8 ": " ++
      d.message ++ utf8 "\n"

/-- The JSON form of a diagnostic in a report. -/
def diagnosticJson (d : Diagnostic) : Json :=
  .record [("line", .int d.line), ("startColumn", .int d.startColumn),
    ("endColumn", .int d.endColumn), ("severity", .text d.severity.name),
    ("message", .text d.message), ("source", .text d.source)]

/-- The JSON form of what was found in a file. -/
def fileJson (base : Bytes) (r : FileResult) : Json :=
  let category := match r.definition? with
    | some d => if d.category.tag = [] then [] else [("category", .text d.category.tag)]
    | none => []
  let sections := match r.definition? with
    | some d => d.sections.length
    | none => 0
  .record ([("path", .text (shownPath base r.path))] ++ category ++
    [("sections", .int sections), ("diagnostics", .array (r.diagnostics.map diagnosticJson))])

/-- The pieces of output for one file. -/
def filePieces (format : Format) (base : Bytes) (r : FileResult) : List Bytes :=
  match format with
  | .text => fileLines base r
  | .json => [(fileJson base r).render ++ utf8 "\n"]

/-- The pieces of output for all files with a summary. -/
def pieces (format : Format) (base : Bytes) (results : List FileResult) : List Bytes :=
  let summary := Summary.ofResults results
  match format with
  | .text => results.flatMap (fileLines base) ++ [summary.line]
  | .json =>
      let report := Json.record [("files", .array (results.map (fileJson base))),
        ("summary", summary.toJson)]
      [report.renderIndented ++ utf8 "\n"]

end Report

end DefinitionFiles
