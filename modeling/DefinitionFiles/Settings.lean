import DefinitionFiles.Outline
import DefinitionFiles.Text.CaseFolding
import DefinitionFiles.Text.Quoted

/-!
# Settings

The settings say how documents are read, which files belong to a workspace, what is offered for
completion and what is logged. They are checked as a whole before they are used.
-/

namespace DefinitionFiles

/-- A keyword offered for completion. -/
structure Completion where
  label : Bytes := []
  detail : Bytes := []
  deriving DecidableEq, Repr

/-- The settings of the program. -/
structure Settings where
  /-- The source tag of diagnostics. -/
  source : Bytes := ({} : Dialect).source
  /-- The extensions of definition files. -/
  extensions : List Bytes := [utf8 ".dfn"]
  /-- Whether a comment also takes the byte before its marker. -/
  eagerComments : Bool := false
  /-- How many definitions of a document are kept; zero keeps all. -/
  historyLimit : Int := 0
  /-- How many files are read at a time; zero leaves the choice to the program. -/
  concurrency : Int := 0
  /-- The name of the log threshold. -/
  logLevel : Bytes := utf8 "info"
  /-- The name of the log format. -/
  logFormat : Bytes := utf8 "console"
  completions : List Completion :=
    [⟨utf8 "GET", utf8 "Reference another entry"⟩, ⟨utf8 "PORT", utf8 "Numeric port"⟩,
      ⟨utf8 "ENABLED", utf8 "Boolean flag"⟩]
  deriving DecidableEq, Repr

namespace Settings

/-- A reason why settings cannot be used. -/
inductive Invalid where
  | noSource
  | noExtension
  | undottedExtension (extension : Bytes)
  | negativeHistoryLimit
  | negativeConcurrency
  | unknownLogLevel (name : Bytes)
  | unknownLogFormat (name : Bytes)
  | unlabelledCompletion (index : Nat)
  deriving DecidableEq, Repr

/-- The wording of the error. -/
def Invalid.message (e : Invalid) : Bytes :=
  utf8 "invalid config: " ++
    match e with
    | .noSource => utf8 "source must not be empty"
    | .noExtension => utf8 "at least one extension is required"
    | .undottedExtension extension =>
        utf8 "extension " ++ quoted extension ++ utf8 " must start with a dot"
    | .negativeHistoryLimit => utf8 "history_limit must not be negative"
    | .negativeConcurrency => utf8 "concurrency must not be negative"
    | .unknownLogLevel name => utf8 "unknown log level " ++ quoted name
    | .unknownLogFormat name => utf8 "unknown log format " ++ quoted name
    | .unlabelledCompletion index =>
        utf8 "completion " ++ Bytes.decimal index ++ utf8 " has no label"

/-- The log thresholds that settings may name, in lower case. -/
def logLevels : List Bytes :=
  [utf8 "debug", utf8 "info", utf8 "warn", utf8 "error", utf8 "disabled"]

/-- The log formats that settings may name. -/
def logFormats : List Bytes :=
  [utf8 "console", utf8 "json"]

/-- The first thing wrong with settings, if there is any. -/
def fault? (s : Settings) : Option Invalid :=
  if s.source = [] then some .noSource
  else if s.extensions = [] then some .noExtension
  else match s.extensions.find? fun e => e.head? != some 0x2E with
    | some extension => some (.undottedExtension extension)
    | none =>
        if s.historyLimit < 0 then some .negativeHistoryLimit
        else if s.concurrency < 0 then some .negativeConcurrency
        else if !logLevels.contains (lower s.logLevel) then some (.unknownLogLevel s.logLevel)
        else if !logFormats.contains s.logFormat then some (.unknownLogFormat s.logFormat)
        else (s.completions.findIdx? fun c => c.label = []).map .unlabelledCompletion

/-- Checks settings before use. -/
def validate (s : Settings) : Except Invalid Settings :=
  match s.fault? with
  | some e => .error e
  | none => .ok s

/-- How documents are read under the settings. -/
def dialect (s : Settings) : Dialect :=
  { source := s.source, eagerComments := s.eagerComments }

end Settings

end DefinitionFiles
