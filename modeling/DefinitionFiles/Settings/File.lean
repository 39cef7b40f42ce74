import DefinitionFiles.Disk
import DefinitionFiles.Settings
import DefinitionFiles.Yaml.Node.Reader
import DefinitionFiles.Yaml.Token.Stream
import DefinitionFiles.Yaml.Update

/-!
# Settings from files and the environment

Settings start from their defaults. A file changes what it names, then the environment can replace
level and format of the log, and the result must be valid.
-/

namespace DefinitionFiles.Settings

open Yaml (Update)

/-- Reads a keyword for completion. -/
def completion : Update Completion :=
  .record [
    ("label", .part Completion.label (fun c t => { c with label := t }) .text),
    ("detail", .part Completion.detail (fun c t => { c with detail := t }) .text)]

/-- Reads the settings of the log. -/
def logPart : Update Settings :=
  .record [
    ("level", .part Settings.logLevel (fun s t => { s with logLevel := t }) .text),
    ("format", .part Settings.logFormat (fun s t => { s with logFormat := t }) .text)]

/-- Reads settings from the root of a document. -/
def ofYaml : Update Settings :=
  .record [
    ("source", .part Settings.source (fun s t => { s with source := t }) .text),
    ("extensions",
      .part Settings.extensions (fun s l => { s with extensions := l }) (.list [] .text)),
    ("legacy_comment_trim",
      .part Settings.eagerComments (fun s b => { s with eagerComments := b }) .flag),
    ("history_limit", .part Settings.historyLimit (fun s n => { s with historyLimit := n }) .int),
    ("concurrency", .part Settings.concurrency (fun s n => { s with concurrency := n }) .int),
    ("log", logPart),
    ("completion",
      .part Settings.completions (fun s l => { s with completions := l }) (.list {} completion))]

/-- Reads the text of a settings file over old settings. -/
def decode? (text : Bytes) (old : Settings) : Option Settings := do
  let chars ← Yaml.characters? text
  match ← Yaml.document? (Yaml.tokens chars) with
  | none => return old
  | some document => document.update? ofYaml old

/-- Reads the text of a settings file over old settings, or says that it cannot. -/
def decode (text : Bytes) (old : Settings) : Except Bytes Settings :=
  match decode? text old with
  | some settings => .ok settings
  | none => .error (utf8 "the text does not fit")

/-- What the environment says about settings; an empty text says nothing. -/
structure Environment where
  logLevel : Bytes := []
  logFormat : Bytes := []
  /-- The path of the settings file, if one is named. -/
  file? : Option Bytes := none
  deriving DecidableEq, Repr

/-- Settings as the environment changes them. -/
def under (e : Environment) (s : Settings) : Settings :=
  { s with
    logLevel := if e.logLevel = [] then s.logLevel else e.logLevel
    logFormat := if e.logFormat = [] then s.logFormat else e.logFormat }

/-- What the reader of a settings file has against its text. -/
structure Misfit where
  path : Bytes
  reason : Bytes
  deriving DecidableEq, Repr

/-- Why settings could not be loaded. -/
inductive LoadError where
  | unreadable (cause : FileError)
  | malformed (cause : Misfit)
  | invalid (cause : Invalid)
  deriving DecidableEq, Repr

/-- The wording of the error. -/
def LoadError.message : LoadError → Bytes
  | .unreadable cause => utf8 "read config: " ++ cause.message
  | .malformed cause => utf8 "parse config " ++ cause.path ++ utf8 ": " ++ cause.reason
  | .invalid cause => cause.message

/-- Loads settings from the file at a path, by the given reader of its text, and from the
environment. An empty path stands for no file. -/
def loadBy (decode : Bytes → Settings → Except Bytes Settings) (d : Disk) (e : Environment)
    (path : Bytes) : Except LoadError Settings := do
  let settings ←
    if path = [] then .ok {}
    else match d.read path with
      | .error cause => .error (.unreadable cause)
      | .ok text =>
          match decode text {} with
          | .ok settings => .ok settings
          | .error reason => .error (.malformed ⟨path, reason⟩)
  match (settings.under e).validate with
  | .ok settings => .ok settings
  | .error cause => .error (.invalid cause)

/-- Loads settings from the file at a path and from the environment. -/
def load : Disk → Environment → (path : Bytes) → Except LoadError Settings :=
  loadBy decode

end DefinitionFiles.Settings
