import DefinitionFiles.Clock
import DefinitionFiles.Program

/-!
# The executable

Runs the program on the real files, streams and environment. Everything that is decided is decided
by `Program`; here files are read into snapshots, and output is passed on.
-/

namespace DefinitionFiles.Main

/-- The bytes of a text as they stand in memory. -/
def packed (s : Bytes) : ByteArray :=
  ⟨s.toArray⟩

/-- A path as the system takes it. -/
def shown (path : Bytes) : String :=
  String.ofList (Utf8.chars path)

/-- Adds what stands at a place to a snapshot, and gives the places to look at next. What cannot
be read is left out. -/
def capture (d : Disk) (place : Disk.Place) : IO (Disk × List Disk.Place) := do
  let path := shown (Path.ofSegments true place)
  try
    match (← IO.FS.realPath path).toString with
    | real =>
        let entries ← try pure (some (← (← IO.FS.realPath path).readDir)) catch _ => pure none
        if real != path then
          return (d.put place (.link (utf8 real)), [Path.cleanSegments (utf8 real)])
        else match entries with
          | some entries =>
              return (d.putDirectory place,
                entries.toList.map fun e => place ++ [utf8 e.fileName])
          | none =>
              return (d.put place (.file (← IO.FS.readBinFile path).toList), [])
  catch _ => return (d, [])

/-- A snapshot of the trees at the given paths. -/
def snapshot (cwd : Bytes) (paths : List Bytes) : IO Disk := do
  let mut d : Disk := { cwd := cwd }
  d := d.putDirectory (Path.cleanSegments cwd)
  let mut seen : List Disk.Place := []
  let mut waiting := paths.map fun path => Path.cleanSegments (Path.absolute cwd path)
  repeat
    match waiting with
    | [] => break
    | place :: rest =>
        waiting := rest
        unless seen.contains place do
          seen := place :: seen
          let (next, more) ← capture d place
          d := next
          waiting := more ++ waiting
  return d

/-- The first number in a text. -/
def firstNumber (s : String) : Nat :=
  (((s.toList.dropWhile fun c => !c.isDigit).takeWhile Char.isDigit).foldl
    (fun n c => 10 * n + (c.toNat - '0'.toNat)) 0)

/-- The present moment, from the time the system was started and how long it has been up. Where
the system does not tell, the count starts with the program. -/
def now : IO Moment := do
  try
    let up := firstNumber (← IO.FS.readFile "/proc/uptime")
    let lines ← IO.FS.lines "/proc/stat"
    let started := (lines.find? (·.startsWith "btime")).map firstNumber
    return ⟨started.getD 0 + up⟩
  catch _ => return ⟨(← IO.monoMsNow) / 1000⟩

/-- Passes on what a run wrote and logged, and forgets it. -/
def drain (p : Program) : IO Program := do
  let moment ← now
  let time := match Log.Format.ofName p.settings.logFormat with
    | .json => moment.stamp
    | .console => moment.timeOfDay
  let stdout ← IO.getStdout
  let stderr ← IO.getStderr
  for line in p.logLines time do
    stderr.write (packed line)
  for piece in p.output.reverse do
    stdout.write (packed piece)
  stdout.flush
  return { p with output := [], log := [] }

/-- Whether more bytes are needed before the next message can be read. -/
def needsMore (bytes : Bytes) : Bool :=
  match Rpc.Frame.read { bytes := bytes } with
  | .error e => e.isCut
  | .ok _ => false

/-- Serves standard input to its end. -/
def serve (start : Program) : IO Program := do
  let stdin ← IO.getStdin
  let mut p := start
  let mut bytes : Bytes := []
  let mut isOpen := true
  repeat
    match p.phase with
    | .serving _ =>
        if isOpen && needsMore bytes then
          let chunk ← stdin.read 65536
          isOpen := !chunk.isEmpty
          bytes := bytes ++ chunk.toList
        else
          let (next, rest) := p.receive { bytes := bytes }
          bytes := rest.bytes
          p ← drain next
    | _ => break
  return p

/-- How long a file must be quiet before it is examined, in milliseconds. -/
def quietTime : UInt32 := 200

/-- Watches files by comparing snapshots. -/
def watch (cwd : Bytes) (paths : List Bytes) (start : Program) (d : Disk) : IO Program := do
  let mut p := start
  let mut old := d
  repeat
    match p.phase with
    | .watching _ _ =>
        IO.sleep quietTime
        let new ← snapshot cwd paths
        match DiskEvent.between old new with
        | [] => if let some next := p.examineNext? new then p := next
        | events => for e in events do p := p.observe new e
        old := new
        p ← drain p
    | _ => break
  return p

/-- Runs the program and gives its exit code. -/
def run (arguments : List String) : IO UInt32 := do
  let arguments := arguments.map utf8
  let cwd := utf8 (← IO.currentDir).toString
  let variable' := fun (name : String) => do return (← IO.getEnv name).map utf8
  let environment : Settings.Environment := {
    logLevel := (← variable' "DFNLS_LOG_LEVEL").getD []
    logFormat := (← variable' "DFNLS_LOG_FORMAT").getD []
    file? := ← variable' "DFNLS_CONFIG" }
  let invocation := Command.Invocation.ofArguments arguments
  let paths := invocation.request.paths
  let file? := (invocation.overrides?.bind (·.file?)) <|> environment.file?
  let d ← snapshot cwd (file?.toList ++ paths)
  let p ← drain (Program.start d environment arguments)
  let p ← match p.phase with
    | .serving _ => serve p
    | .watching _ _ => watch cwd paths p d
    | .ended _ => pure p
  match p.phase with
  | .ended ending =>
      if let some message := ending.message?.filter (· != []) then
        (← IO.getStderr).write (packed (message ++ utf8 "\n"))
      return ending.code.toUInt32
  | _ => return 0

end DefinitionFiles.Main

/-- The entry point. -/
def main (arguments : List String) : IO UInt32 :=
  DefinitionFiles.Main.run arguments
