import DefinitionFiles.Json
import DefinitionFiles.Numeral.Integer
import DefinitionFiles.Text.CaseFolding
import DefinitionFiles.Text.Quoted

/-!
# Log entries

An entry has a level, named fields and a message. It is written as one JSON object per line, or as
a line for people to read, in which the field `error` comes first and the others are sorted.
-/

namespace DefinitionFiles.Log

/-- How important an entry is. -/
inductive Level where
  | debug
  | info
  | warn
  | error
  deriving DecidableEq, Repr

namespace Level

/-- The name of a level. -/
def name : Level → String
  | .debug => "debug"
  | .info => "info"
  | .warn => "warn"
  | .error => "error"

/-- The mark of a level in a line for people. -/
def mark : Level → String
  | .debug => "DBG"
  | .info => "INF"
  | .warn => "WRN"
  | .error => "ERR"

/-- The place of a level in the order of importance. -/
def rank : Level → Nat
  | .debug => 0
  | .info => 1
  | .warn => 2
  | .error => 3

end Level

/-- Which entries are written: those from a level on, or none. -/
inductive Threshold where
  | level (least : Level)
  | disabled
  deriving DecidableEq, Repr

namespace Threshold

/-- The name of a threshold. -/
def name : Threshold → String
  | .level least => least.name
  | .disabled => "disabled"

/-- Whether entries of a level are written. -/
def admits : Threshold → Level → Bool
  | .level least, l => least.rank ≤ l.rank
  | .disabled, _ => false

/-- Every threshold. -/
def all : List Threshold :=
  [.level .debug, .level .info, .level .warn, .level .error, .disabled]

/-- A name that belongs to no threshold. -/
structure Unknown where
  name : Bytes
  deriving DecidableEq, Repr

/-- The wording of the error. -/
def Unknown.message (e : Unknown) : Bytes :=
  utf8 "unknown log level " ++ quoted e.name

/-- The threshold with the given name in any letter case. -/
def named? (name : Bytes) : Option Threshold :=
  all.find? fun t => lower name = utf8 t.name

/-- The threshold for a configured name; the empty name stands for `info`. -/
def ofName (name : Bytes) : Except Unknown Threshold :=
  if name = [] then .ok (.level .info)
  else match named? name with
    | some t => .ok t
    | none => .error ⟨name⟩

end Threshold

/-- The value of a field. -/
inductive Value where
  | text (s : Bytes)
  | int (n : Int)
  | flag (b : Bool)
  deriving DecidableEq, Repr

/-- One log entry. -/
structure Entry where
  level : Level
  fields : List (Bytes × Value) := []
  /-- The message; an empty one is not written. -/
  message : Bytes := []
  deriving DecidableEq, Repr

/-- Builds an entry from fields under plain names. -/
def entry (level : Level) (fields : List (String × Value)) (message : Bytes) : Entry :=
  { level := level, fields := fields.map fun (name, value) => (utf8 name, value)
    message := message }

/-- An entry with a field in front that names the component it comes from. -/
def Entry.from (component : String) (e : Entry) : Entry :=
  { e with fields := (utf8 "component", .text (utf8 component)) :: e.fields }

/-- The layouts a log can be written in. -/
inductive Format where
  | console
  | json
  deriving DecidableEq, Repr

/-- The format with the given name; what is not `json` is for people. -/
def Format.ofName (name : Bytes) : Format :=
  if name = utf8 "json" then .json else .console

/-- A glyph as it stands in a JSON string of a log line: control characters are escaped, DEL too,
and a stray byte is written as the escape of U+FFFD. -/
def escapeGlyph : Glyph → Bytes
  | .scalar c => if c.toNat = 0x7F then utf8 "\\u007f" else Json.escapeChar c
  | .stray _ => utf8 "\\ufffd"

/-- A JSON string of a log line. -/
def jsonText (s : Bytes) : Bytes :=
  0x22 :: (Utf8.glyphs s).flatMap escapeGlyph ++ [0x22]

/-- A value as it stands in a JSON line. -/
def Value.json : Value → Bytes
  | .text s => jsonText s
  | .int n => Bytes.signedDecimal n
  | .flag b => utf8 (if b then "true" else "false")

/-- Whether a text needs quotes in a line for people: it has a byte other than the visible ASCII
ones, or a quote or a backslash. -/
def needsQuotes (s : Bytes) : Bool :=
  s.any fun b => b ≤ 0x20 || 0x7E < b || b = 0x22 || b = 0x5C

/-- A text with every stray byte replaced by U+FFFD. -/
def scrubbed (s : Bytes) : Bytes :=
  Utf8.ofChars (Utf8.chars s)

/-- A value as it stands in a line for people. -/
def Value.plain : Value → Bytes
  | .text s => if needsQuotes (scrubbed s) then quoted (scrubbed s) else scrubbed s
  | .int n => Bytes.signedDecimal n
  | .flag b => utf8 (if b then "true" else "false")

/-- A value where a line for people expects text: a flag is shown as what does not fit there. -/
def Value.bare : Value → Bytes
  | .text s => scrubbed s
  | .int n => Bytes.signedDecimal n
  | .flag b => utf8 (if b then "%!s(bool=true)" else "%!s(bool=false)")

/-- The marks of levels in a line for people by name and by number. -/
def levelMarks : List (String × Int × String) :=
  [("trace", -1, "TRC"), ("debug", 0, "DBG"), ("info", 1, "INF"), ("warn", 2, "WRN"),
    ("error", 3, "ERR"), ("fatal", 4, "FTL"), ("panic", 5, "PNC")]

/-- The mark of the level a text names in any letter case, or by its number. -/
def levelMark? (s : Bytes) : Option String :=
  let number? := (Numeral.decimalInteger s).toOption
  (levelMarks.find? fun (name, n, _) => sameFolded s (utf8 name) || number? = some n).map
    fun (_, _, mark) => mark

/-- The mark of a level that is given as a value: that of the level it names, or else the first
three bytes of it in capitals. -/
def Value.mark (v : Value) : Bytes :=
  let start := (v.bare.map Bytes.upperByte).take 3
  match v with
  | .text s => ((levelMark? (scrubbed s)).map utf8).getD start
  | _ => start

namespace Entry

/-- An entry as a JSON line. -/
def jsonLine (time : Bytes) (e : Entry) : Bytes :=
  let member := fun (name value : Bytes) => jsonText name ++ utf8 ":" ++ value
  let parts := member (utf8 "level") (jsonText (utf8 e.level.name))
    :: e.fields.map (fun (name, value) => member name value.json)
    ++ [member (utf8 "time") (jsonText time)]
    ++ (if e.message = [] then [] else [member (utf8 "message") (jsonText e.message)])
  utf8 "\x7b" ++ Bytes.join (utf8 ",") parts ++ utf8 "\x7d\n"

/-- The value of the last field with the given name. -/
def field? (e : Entry) (name : String) : Option Value :=
  (e.fields.reverse.find? fun (n, _) => n = utf8 name).map Prod.snd

/-- The names of fields that a line for people shows in front of the others. -/
def leadingNames : List Bytes :=
  [utf8 "time", utf8 "level", utf8 "caller", utf8 "message"]

/-- The fields in the order of a line for people: `error` first, the others by name. Those that are
shown in front are left out, and beside an `error` so is a field without a name. -/
def sortedFields (e : Entry) : List (Bytes × Value) :=
  let shown := e.fields.filter fun (name, _) => !leadingNames.contains name
  let (errors, others) := shown.partition fun (name, _) => name = utf8 "error"
  let named := if errors.isEmpty then others else others.filter fun (name, _) => name != []
  errors ++ Bytes.sortOn Prod.fst named

/-- The mark of an entry in a line for people; a field named `level` stands in for its level. -/
def mark (e : Entry) : Bytes :=
  ((e.field? "level").map Value.mark).getD (utf8 e.level.mark)

/-- The message of an entry in a line for people; a field named `message` stands in for an empty
one. -/
def shownMessage (e : Entry) : Bytes :=
  if e.message = [] then ((e.field? "message").map Value.bare).getD [] else scrubbed e.message

/-- Who logged the entry, in a line for people: what a field named `caller` says. -/
def shownCaller (e : Entry) : Bytes :=
  match e.field? "caller" with
  | some (.text s) => if s = [] then [] else scrubbed s ++ utf8 " >"
  | _ => []

/-- An entry as a line for people. -/
def plainLine (time : Bytes) (e : Entry) : Bytes :=
  let parts := [time, e.mark, e.shownCaller, e.shownMessage].filter (· != [])
    ++ e.sortedFields.map (fun (name, value) => name ++ utf8 "=" ++ value.plain)
  Bytes.join (utf8 " ") parts ++ utf8 "\n"

/-- An entry as a line of the given format, written at the given time. -/
def line (format : Format) (time : Bytes) (e : Entry) : Bytes :=
  match format with
  | .json => e.jsonLine time
  | .console => e.plainLine time

end Entry

/-- Which entries are written, and how. -/
structure Logger where
  threshold : Threshold
  format : Format
  deriving DecidableEq, Repr

namespace Logger

/-- The logger with the given names of threshold and format. -/
def ofNames (level format : Bytes) : Except Threshold.Unknown Logger :=
  match Threshold.ofName level with
  | .ok threshold => .ok { threshold := threshold, format := .ofName format }
  | .error e => .error e

/-- The lines of those of some entries that are written, at the given time. -/
def lines (l : Logger) (time : Bytes) (entries : List Entry) : List Bytes :=
  (entries.filter fun e => l.threshold.admits e.level).map (Entry.line l.format time)

end Logger

end DefinitionFiles.Log
