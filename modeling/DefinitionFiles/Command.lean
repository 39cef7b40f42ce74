import DefinitionFiles.Command.Flag
import DefinitionFiles.Text.Blank

/-!
# Commands

The program is called with flags of its own, the name of a command and the arguments of that
command. Every command explains itself when it is asked to, and so does the program. What the
arguments ask for is known before anything is done.
-/

namespace DefinitionFiles

/-- The program, or one of its commands. -/
structure Command where
  name : String
  alias? : Option String := none
  /-- What the command does. -/
  purpose : String
  /-- How its operands are shown in the help. -/
  operands : String := ""
  flags : List Flag
  deriving DecidableEq, Repr

namespace Command

/-- The flag that asks for help. -/
def helpFlag : Flag :=
  { name := "help", alias? := some "h", isSwitch := true, purpose := "show help" }

/-- The flag that asks for the version. -/
def versionFlag : Flag :=
  { name := "version", alias? := some "v", isSwitch := true, purpose := "print the version" }

/-- The flag that names a settings file. -/
def configFlag : Flag :=
  { name := "config", alias? := some "c", purpose := "path to a dfnls.yaml file [$DFNLS_CONFIG]" }

/-- The flag for the log threshold. -/
def logLevelFlag : Flag :=
  { name := "log-level", purpose := "debug, info, warn, error or disabled" }

/-- The flag for the log format. -/
def logFormatFlag : Flag :=
  { name := "log-format", purpose := "console or json" }

/-- The flag for the way the server is reached; there is only one. -/
def stdioFlag : Flag :=
  { name := "stdio", isSwitch := true
    purpose := "communicate over stdin and stdout (the only transport)" }

/-- The flag for the format of a report. -/
def formatFlag : Flag :=
  { name := "format", alias? := some "f", purpose := "text or json" }

/-- The flag for the extensions of definition files. It can be repeated, and a value can list
several. -/
def extensionFlag : Flag :=
  { name := "ext", purpose := "file extensions to scan, overriding the config" }

/-- The flag that makes warnings a failure. -/
def strictFlag : Flag :=
  { name := "warnings-as-errors", isSwitch := true
    purpose := "fail when any warning is reported" }

/-- The flag that keeps the program watching. -/
def watchFlag : Flag :=
  { name := "watch", alias? := some "w", isSwitch := true
    purpose := "keep running and re-check files as they change" }

/-- The program as a whole. -/
def program : Command :=
  { name := "dfnls", purpose := "check UOX3 definition files and serve them to editors"
    operands := "command"
    flags := [configFlag, logLevelFlag, logFormatFlag, helpFlag, versionFlag] }

/-- The command that runs the language server. -/
def serve : Command :=
  { name := "serve", purpose := "run the language server", flags := [stdioFlag, helpFlag] }

/-- The command that checks files. -/
def check : Command :=
  { name := "check", purpose := "report diagnostics for definition files"
    operands := "[paths...]"
    flags := [formatFlag, extensionFlag, strictFlag, watchFlag, helpFlag] }

/-- The command that lists the categories. -/
def categories : Command :=
  { name := "categories", purpose := "list definition categories and their directories"
    flags := [helpFlag] }

/-- The command that explains others. -/
def help : Command :=
  { name := "help", alias? := some "h", purpose := "list commands or explain one"
    operands := "[command]", flags := [helpFlag] }

/-- The commands of the program. -/
def all : List Command := [serve, check, categories, help]

/-- The names of a command. -/
def names (c : Command) : List Bytes :=
  utf8 c.name :: (c.alias?.map utf8).toList

/-- The command with the given name among some. -/
def named? (commands : List Command) (name : Bytes) : Option Command :=
  commands.find? fun c => c.names.contains name

/-- The commands that can be called within another one. -/
def inner (c : Command) : List Command :=
  if c = program then all else [help]

/-- The names of a command or a flag as the help shows them. -/
def shownNames (dashes : Bool) (name : String) (alias? : Option String) : Bytes :=
  let long := if dashes then utf8 "--" ++ utf8 name else utf8 name
  match alias? with
  | none => long
  | some short => long ++ utf8 (if dashes then ", -" else ", ") ++ utf8 short

/-- A list of things with explanations, set in two columns. -/
def table (rows : List (Bytes × Bytes)) : List Bytes :=
  let width := rows.foldl (fun n (left, _) => max n left.length) 0 + 2
  rows.map fun (left, right) => left ++ List.replicate (width - left.length) 0x20 ++ right

/-- A part of the help: a heading and indented lines. -/
def helpPart (heading : String) (lines : List Bytes) : Bytes :=
  utf8 heading ++ utf8 ":\n" ++ lines.flatMap fun line => utf8 "   " ++ line ++ utf8 "\n"

/-- The help for a command. -/
def helpText (c : Command) : Bytes :=
  let called := if c = program then utf8 c.name else utf8 program.name ++ utf8 " " ++ utf8 c.name
  let usage := called ++ utf8 " [options]" ++
    if c.operands = "" then [] else utf8 " " ++ utf8 c.operands
  let parts := [helpPart "NAME" [called ++ utf8 " - " ++ utf8 c.purpose],
    helpPart "USAGE" [usage]] ++
    (if c = program then
      [helpPart "COMMANDS" (table (all.map fun k =>
        (shownNames false k.name k.alias?, utf8 k.purpose)))]
    else []) ++
    [helpPart "OPTIONS" (table (c.flags.map fun f =>
      (shownNames true f.name f.alias?, utf8 f.purpose)))]
  Bytes.join (utf8 "\n") parts

/-- What is checked, and how. -/
structure CheckOptions where
  paths : List Bytes
  /-- The name of the report format. -/
  format : Bytes
  /-- The extensions that replace those of the settings. -/
  extensions? : Option (List Bytes)
  /-- Whether warnings are a failure. -/
  strict : Bool
  /-- Whether the files are watched afterwards. -/
  watch : Bool
  deriving DecidableEq, Repr

/-- Something the program can be asked to do. -/
inductive Task where
  | help (topic : Command)
  | version
  | categories
  | serve
  | check (options : CheckOptions)
  deriving DecidableEq, Repr

/-- Why arguments ask for nothing. -/
inductive Refusal where
  /-- The flags of a command cannot be read. -/
  | misused (command : Command) (cause : Flag.Error)
  /-- Help is wanted for what is no command. -/
  | noTopic (name : Bytes)
  deriving DecidableEq, Repr

/-- What arguments ask for. -/
abbrev Request := Except Refusal Task

/-- Help as it is asked for within a command: about the inner command an operand names, and
without one about the command itself. -/
def explain (within : Command) (operands : List Bytes) : Request :=
  match operands.head?.filter (· != []) with
  | none => .ok (.help within)
  | some name =>
      match named? within.inner name with
      | some topic => .ok (.help topic)
      | none => .error (.noTopic name)

/-- What the help command is asked for when it is called within another one. Calls of the help
command can be nested. -/
def helpRequest (within : Command) (arguments : List Bytes) : Request :=
  match _h : Arguments.read help.flags arguments with
  | .error e => .error (.misused help e)
  | .ok a =>
      if a.isOn helpFlag then explain within a.operands
      else match _ho : a.operands with
        | [] => explain within []
        | first :: rest =>
            if help.names.contains first then helpRequest help rest
            else explain within (first :: rest)
termination_by arguments.length
decreasing_by
  have := Arguments.length_of_read _h
  simp only [_ho, List.length_cons] at this
  omega

/-- The extensions named by the values of a flag: each value is a list separated by commas. -/
def extensionsOf (values : List Bytes) : Option (List Bytes) :=
  if values = [] then none
  else some (values.flatMap fun value => (Bytes.split 0x2C value).map Bytes.trim)

/-- What the check command is asked for. Without paths it checks the working directory. -/
def checkOptions (a : Arguments) : CheckOptions where
  paths := if a.operands = [] then [utf8 "."] else a.operands
  format := (a.value? formatFlag).getD (utf8 "text")
  extensions? := extensionsOf (a.values extensionFlag)
  strict := a.isOn strictFlag
  watch := a.isOn watchFlag

/-- What the arguments of a command other than `help` ask for; `task` is what it does. -/
def request (c : Command) (task : Arguments → Task) (arguments : List Bytes) : Request :=
  match Arguments.read c.flags arguments with
  | .error e => .error (.misused c e)
  | .ok a =>
      if a.isOn helpFlag then explain c a.operands
      else match a.operands with
        | [] => .ok (task a)
        | first :: rest =>
            if help.names.contains first then helpRequest c rest else .ok (task a)

/-- What operands of the program ask for: the first one names a command. -/
def dispatch (operands : List Bytes) : Request :=
  match operands with
  | [] => explain program []
  | name :: arguments =>
      if serve.names.contains name then request serve (fun _ => .serve) arguments
      else if check.names.contains name then
        request check (fun a => .check (checkOptions a)) arguments
      else if categories.names.contains name then
        request categories (fun _ => .categories) arguments
      else if help.names.contains name then helpRequest program arguments
      else explain program operands

/-- What flags say about settings. -/
structure Overrides where
  /-- The path of the settings file. -/
  file? : Option Bytes := none
  logLevel? : Option Bytes := none
  logFormat? : Option Bytes := none
  deriving DecidableEq, Repr

/-- What the program is called for. -/
structure Invocation where
  request : Request
  /-- What flags say about settings. Without this the request is answered before settings are
  loaded. -/
  overrides? : Option Overrides := none

/-- The paths a request is about. -/
def Request.paths : Request → List Bytes
  | .ok (.check options) => options.paths
  | _ => []

/-- What the arguments of the program ask for. -/
def Invocation.ofArguments (arguments : List Bytes) : Invocation :=
  match Arguments.read program.flags arguments with
  | .error e => { request := .error (.misused program e) }
  | .ok a =>
      if a.isOn helpFlag then { request := explain program a.operands }
      else if a.isOn versionFlag then { request := .ok .version }
      else {
        request := dispatch a.operands
        overrides? := some {
          file? := a.value? configFlag
          logLevel? := a.value? logLevelFlag
          logFormat? := a.value? logFormatFlag } }

end Command

end DefinitionFiles
