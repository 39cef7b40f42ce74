import DefinitionFiles.Editor.Document
import DefinitionFiles.Json
import DefinitionFiles.Settings

/-!
# What the server tells an editor

The results of requests and the diagnostics of a document in the form editors understand.
-/

namespace DefinitionFiles

/-- A member that is left out when its text is empty. -/
def Json.unlessEmpty (name : String) (s : Bytes) : List (String × Json) :=
  if s = [] then [] else [(name, .text s)]

/-- The JSON form of a position. -/
def Position.toJson (p : Position) : Json :=
  .record [("line", .int p.line), ("character", .int p.character)]

/-- The JSON form of a span. -/
def Span.toJson (s : Span) : Json :=
  .record [("start", s.start.toJson), ("end", s.stop.toJson)]

/-- The span of a diagnostic in a document with the given number of lines. The diagnostic at the
end stands on the last line. -/
def Diagnostic.span (lineCount : Nat) (d : Diagnostic) : Span :=
  let line := if d.isAtEnd then (lineCount : Int) - 1 else d.line
  { start := { line := line, character := d.startColumn }
    stop := { line := line, character := d.endColumn } }

/-- The JSON form of a diagnostic of a document with the given number of lines. -/
def Diagnostic.toJson (lineCount : Nat) (d : Diagnostic) : Json :=
  .record ([("range", (d.span lineCount).toJson), ("severity", .int d.severity.code)]
    ++ Json.unlessEmpty "source" d.source ++ [("message", .text d.message)])

namespace Server

/-- The name the server gives itself. -/
def name : Bytes :=
  utf8 "dfnls"

/-- What the server can do: it follows documents change by change and offers completions. -/
def capabilities (version : Bytes) : Json :=
  .record [
    ("capabilities", .record [
      ("textDocumentSync", .record [("openClose", .bool true), ("change", .int 2)]),
      ("completionProvider", .record [("resolveProvider", .bool false)])]),
    ("serverInfo", .record (("name", .text name) :: Json.unlessEmpty "version" version))]

/-- The JSON form of a keyword offered for completion. -/
def completionItem (c : Completion) : Json :=
  .record ([("label", .text c.label), ("kind", .int 14)] ++ Json.unlessEmpty "detail" c.detail)

/-- The parameters of a publication: the document, its version if it is open, and everything to
be shown for it. -/
def publication (uri : Bytes) (version? : Option Int) (diagnostics : List Json) : Json :=
  let version := match version? with
    | some version => [("version", .int version)]
    | none => []
  .record (("uri", .text uri) :: version ++ [("diagnostics", .array diagnostics)])

end Server

end DefinitionFiles
