import DefinitionFiles.Category

/-!
# Diagnostics

A diagnostic points at one structural defect of a document. Columns count UTF-16 code units. The
diagnostic for a document that ends inside a block has no line to point to; it stands at line -1.
-/

namespace DefinitionFiles

/-- The severity of a diagnostic as the code that editors use. Only 1 and 2 have a name. -/
structure Severity where
  code : Int
  deriving DecidableEq, Repr

namespace Severity

/-- The severity of a defect. -/
def error : Severity := ⟨1⟩

/-- The severity of something that is merely suspicious. -/
def warning : Severity := ⟨2⟩

/-- The name of a severity. -/
def name (s : Severity) : Bytes :=
  if s = error then utf8 "error"
  else if s = warning then utf8 "warning"
  else utf8 "unknown"

/-- A text that names no severity. -/
structure Unknown where
  text : Bytes
  deriving DecidableEq, Repr

/-- The wording of the error. -/
def Unknown.message (e : Unknown) : Bytes :=
  utf8 "unknown severity " ++ quoted e.text

/-- The severity with the given name. -/
def ofName (text : Bytes) : Except Unknown Severity :=
  if text = utf8 "error" then .ok error
  else if text = utf8 "warning" then .ok warning
  else .error ⟨text⟩

end Severity

/-- One structural defect of a document. -/
structure Diagnostic where
  /-- The zero-based line, or a negative number for the end of the document. -/
  line : Int
  startColumn : Int
  endColumn : Int
  severity : Severity
  message : Bytes
  source : Bytes
  deriving DecidableEq, Repr

namespace Diagnostic

/-- Whether a diagnostic stands at the end of the document instead of a line. -/
def isAtEnd (d : Diagnostic) : Bool :=
  d.line < 0

/-- The diagnostics with the given severity. -/
def withSeverity (severity : Severity) (ds : List Diagnostic) : List Diagnostic :=
  ds.filter fun d => d.severity = severity

/-- A message with the directory name of the category in front of it and the header of the current
section behind it, as far as they are there. -/
def annotate (category : Category) (header? : Option Bytes) (message : Bytes) : Bytes :=
  (if category = Category.none then [] else utf8 "[" ++ category.dirName ++ utf8 "] ")
    ++ message
    ++ match header? with
      | some header => utf8 " (in [" ++ header ++ utf8 "])"
      | none => []

end Diagnostic

end DefinitionFiles
