import DefinitionFiles.Command
import DefinitionFiles.Report
import DefinitionFiles.Server
import DefinitionFiles.Settings.File
import DefinitionFiles.Watcher

/-!
# The program

A run of the program starts from its arguments, the environment and the files it sees. Most
commands end at once. The language server then goes on with every message it receives, and a
watching check with everything that happens on disk, until they end by themselves or are stopped.
What a run writes and logs is collected in it.
-/

namespace DefinitionFiles

/-- How the program ends. -/
inductive Ending where
  | done
  /-- The work was done, and its result is a failure that speaks for itself. -/
  | failed
  | refused (cause : Command.Refusal)
  | badSettings (cause : Settings.LoadError)
  | badLog (cause : Log.Threshold.Unknown)
  | unknownFormat (cause : Report.UnknownFormat)
  | badWorkspace (cause : Workspace.Error)
  /-- A session of the language server broke off. -/
  | brokenSession (outcome : Server.Outcome)
  deriving DecidableEq, Repr

namespace Ending

/-- The exit code. -/
def code : Ending → Nat
  | .done => 0
  | .refused (.noTopic _) => 3
  | .unknownFormat _ => 2
  | _ => 1

/-- The wording of an ending that is an error. -/
def message? : Ending → Option Bytes
  | .done => none
  | .failed => some []
  | .refused (.misused _ cause) => some cause.message
  | .refused (.noTopic name) => some (utf8 "No help topic for '" ++ name ++ utf8 "'")
  | .badSettings cause => some cause.message
  | .badLog cause => some cause.message
  | .unknownFormat cause => some cause.message
  | .badWorkspace cause => some cause.message
  | .brokenSession outcome => outcome.message?

/-- How the program ends after a session. A connection that is closed is a good end. -/
def ofOutcome : Server.Outcome → Ending
  | .finished | .connectionClosed => .done
  | .exitWithoutShutdown => .failed
  | outcome => .brokenSession outcome

end Ending

/-- What the program is about. -/
inductive Phase where
  | serving (server : Server)
  | watching (format : Report.Format) (watcher : Watcher)
  | ended (ending : Ending)

/-- What a run leaves to others: to read its arguments, settings files and JSON. -/
structure Program.Readers where
  invocation : List Bytes → Command.Invocation := Command.Invocation.ofArguments
  settings : Bytes → Settings → Except Bytes Settings := Settings.decode
  wording : Server.Wording := {}

/-- A run of the program. -/
structure Program where
  settings : Settings := {}
  wording : Server.Wording := {}
  /-- The working directory. -/
  base : Bytes := []
  /-- What was written to standard output, newest piece first. -/
  output : List Bytes := []
  /-- The log, newest entry first. -/
  log : List Log.Entry := []
  phase : Phase := .ended .done

namespace Program

/-- The version of the program. -/
def version : Bytes := utf8 "dev"

/-- Writes pieces to standard output. -/
def write (p : Program) (pieces : List Bytes) : Program :=
  { p with output := pieces.reverse ++ p.output }

/-- Adds an entry to the log. -/
def note (p : Program) (level : Log.Level) (fields : List (String × Log.Value))
    (message : String) : Program :=
  { p with log := Log.entry level fields (utf8 message) :: p.log }

/-- Ends the run. -/
def finish (p : Program) (ending : Ending) : Program :=
  { p with phase := .ended ending }

/-- The lines of the log so far, as the logger of the settings writes them at the given time. -/
def logLines (p : Program) (time : Bytes) : List Bytes :=
  match Log.Logger.ofNames p.settings.logLevel p.settings.logFormat with
  | .ok logger => logger.lines time p.log.reverse
  | .error _ => []

/-- Goes on with a server, and takes over what it sent and logged. -/
def withServer (p : Program) (s : Server) : Program :=
  { p with
    output := s.sink.pieces ++ p.output
    log := s.log ++ p.log
    phase := .serving { s with sink := { s.sink with pieces := [] }, log := [] } }

/-- Goes on with a watcher, and takes over what it found and logged. -/
def withWatcher (p : Program) (format : Report.Format) (w : Watcher) : Program :=
  let p := p.write (w.results.reverse.flatMap (Report.filePieces format p.base))
  { p with
    log := w.log ++ p.log
    phase := .watching format { w with results := [], log := [] } }

/-- Lists the categories in two columns. -/
def categoryLines : List Bytes :=
  (Command.table ((utf8 "CATEGORY", utf8 "DIRECTORY") :: Category.all.map fun c =>
    (c.tag, c.dirName ++ utf8 "/"))).map (· ++ utf8 "\n")

/-- Starts the language server. -/
def serve (p : Program) : Program :=
  let p := p.note .info [("version", .text version)] "language server starting"
  p.withServer {
    settings := p.settings, version := version, wording := p.wording
    store := Store.withLimit p.settings.historyLimit }

/-- The workspace that is checked. -/
def workspaceOf (s : Settings) (o : Command.CheckOptions) : Workspace :=
  { ({ roots := o.paths } : Workspace).withExtensions (o.extensions?.getD s.extensions) with
    concurrency := s.concurrency, dialect := s.dialect }

/-- Watches a workspace that was checked. -/
def watch (p : Program) (d : Disk) (format : Report.Format) (w : Workspace) : Program :=
  match ({ workspace := w } : Watcher).start d with
  | (watcher, none) => p.withWatcher format watcher
  | (watcher, some e) => (p.withWatcher format watcher).finish (.badWorkspace e)

/-- Checks files and reports what was found. -/
def check (p : Program) (d : Disk) (o : Command.CheckOptions) : Program :=
  match Report.Format.ofName o.format with
  | .error e => p.finish (.unknownFormat e)
  | .ok format =>
      let w := workspaceOf p.settings o
      match w.scan d false with
      | .error e => p.finish (.badWorkspace e)
      | .ok results =>
          let p := p.write (Report.pieces format p.base results)
          if o.watch then p.watch d format w
          else if (Summary.ofResults results).isFailure o.strict then p.finish .failed
          else p.finish .done

/-- Does what was asked for. -/
def perform (p : Program) (d : Disk) : Command.Request → Program
  | .error (.misused command cause) =>
      (p.write [utf8 "Incorrect Usage: " ++ cause.message ++ utf8 "\n\n", command.helpText]).finish
        (.refused (.misused command cause))
  | .error (.noTopic name) => p.finish (.refused (.noTopic name))
  | .ok (.help topic) => (p.write [topic.helpText]).finish .done
  | .ok .version =>
      (p.write [utf8 Command.program.name ++ utf8 " version " ++ version ++ utf8 "\n"]).finish
        .done
  | .ok .categories => (p.write categoryLines).finish .done
  | .ok .serve => p.serve
  | .ok (.check options) => p.check d options

/-- The settings of a run, given how the text of a settings file is read. A flag wins over the
environment, which wins over the file; what the file and the environment say must be valid without
the flags too. -/
def settingsBy (decode : Bytes → Settings → Except Bytes Settings) (d : Disk)
    (e : Settings.Environment) (o : Command.Overrides) : Except Settings.LoadError Settings := do
  let path := (o.file? <|> e.file?).getD []
  let settings ← Settings.loadBy decode d e path
  let changed := { settings with
    logLevel := o.logLevel?.getD settings.logLevel
    logFormat := o.logFormat?.getD settings.logFormat }
  match changed.validate with
  | .ok settings => return settings
  | .error cause => throw (.invalid cause)

/-- The settings of a run with its logger, or how the run ends without them. -/
def setupBy (decode : Bytes → Settings → Except Bytes Settings) (d : Disk)
    (e : Settings.Environment) (o : Command.Overrides) :
    Except Ending (Settings × Log.Logger) :=
  match settingsBy decode d e o with
  | .error cause => .error (.badSettings cause)
  | .ok settings =>
      match Log.Logger.ofNames settings.logLevel settings.logFormat with
      | .error cause => .error (.badLog cause)
      | .ok logger => .ok (settings, logger)

/-- Starts a run, given how it reads what it is told. -/
def startBy (r : Readers) (d : Disk) (e : Settings.Environment) (arguments : List Bytes) :
    Program :=
  let invocation := r.invocation arguments
  let p : Program := { base := d.cwd, wording := r.wording }
  match invocation.overrides? with
  | none => p.perform d invocation.request
  | some overrides =>
      match setupBy r.settings d e overrides with
      | .error ending => p.finish ending
      | .ok (settings, _) => { p with settings := settings }.perform d invocation.request

/-- Starts a run. -/
def start : Disk → Settings.Environment → (arguments : List Bytes) → Program :=
  startBy {}

/-- Ends a session. -/
def leave (p : Program) (outcome : Server.Outcome) : Program :=
  let p :=
    if outcome = .connectionClosed then
      p.note .warn [] "client closed the connection without exit"
    else p
  p.finish (.ofOutcome outcome)

/-- Lets the language server handle the next message of a stream; gives what is left of it. -/
def receive (p : Program) (source : Rpc.Source) : Program × Rpc.Source :=
  match p.phase with
  | .serving server =>
      match server.advance source with
      | (server, .ok rest) => (p.withServer server, rest)
      | (server, .error outcome) => ((p.withServer server).leave outcome, source)
  | _ => (p, source)

/-- Tells a watching check what happened on disk. -/
def observe (p : Program) (d : Disk) (e : DiskEvent) : Program :=
  match p.phase with
  | .watching format watcher => p.withWatcher format (watcher.handle d e)
  | _ => p

/-- Lets a watching check examine the file that waits longest, if any file waits. -/
def examineNext? (p : Program) (d : Disk) : Option Program :=
  match p.phase with
  | .watching format watcher => (watcher.fire? d).map (p.withWatcher format)
  | _ => none

/-- Stops a run from outside. -/
def cancel (p : Program) : Program :=
  match p.phase with
  | .serving _ => p.leave .cancelled
  | .watching format watcher => (p.withWatcher format watcher.stop).finish .done
  | .ended _ => p

end Program

end DefinitionFiles
