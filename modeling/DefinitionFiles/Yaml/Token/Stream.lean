import DefinitionFiles.Yaml.Scalar.Block
import DefinitionFiles.Yaml.Token.Directive

/-!
# Tokens from text

A text is cut into tokens from left to right. Indentation opens and closes block collections. Where
a key may start, its place is remembered: if a colon follows on the same line and not too far away,
a token that announces the key is put there. A token can therefore be used only when no key can
start there any more, and when two more tokens are known.
-/

namespace DefinitionFiles.Yaml

/-- A place where a key may have started. -/
structure Key where
  /-- How many tokens stand before it. -/
  number : Nat
  index : Nat
  line : Nat
  column : Nat
  /-- Whether only a key can stand there. -/
  required : Bool
  deriving Repr

/-- Whether a colon at the given place can still make it a key. -/
def Key.reaches (k : Key) (c : Cursor) : Bool :=
  k.line = c.line && c.index ≤ k.index + 1024

/-- How many collections can be open at once, of each kind. -/
def mostOpen : Nat := 10000

/-- What is known in the middle of a text. -/
structure Scan where
  here : Cursor
  /-- The tokens so far, last one first. -/
  tokens : List Token := []
  /-- How many tokens there are. -/
  count : Nat := 0
  /-- The columns of the open block collections, innermost first. -/
  columns : List Nat := []
  /-- The key that may have started in the innermost flow collection, or outside of all. -/
  key? : Option Key := none
  /-- The keys around the open flow collections, innermost first. -/
  outerKeys : List (Option Key) := []
  /-- Whether a key may start here. -/
  keyAllowed : Bool := true
  /-- Whether the text starts with a byte order mark after the one that told its encoding. -/
  marked : Bool := false

namespace Scan

/-- Whether the place is in a flow collection. -/
def inFlow (s : Scan) : Bool :=
  !s.outerKeys.isEmpty

/-- The column of the innermost block collection, or -1 outside of all. -/
def indent (s : Scan) : Int :=
  match s.columns with
  | [] => -1
  | column :: _ => column

/-- The state with one more token. -/
def push (token : Token) (s : Scan) : Scan :=
  { s with tokens := token :: s.tokens, count := s.count + 1 }

/-- The state with one more token, which gets the given number. -/
def insert (number : Nat) (token : Token) (s : Scan) : Scan :=
  { s with tokens := s.tokens.insertIdx (s.count - number) token, count := s.count + 1 }

/-- The state at another place. -/
def moveTo (c : Cursor) (s : Scan) : Scan :=
  { s with here := c }

/-- The state in which keys may start here or not. -/
def allowKey (allowed : Bool) (s : Scan) : Scan :=
  { s with keyAllowed := allowed }

/-! ## Keys and indentation -/

/-- Gives up the key that may have started, which must not be required. -/
def dropKey? (s : Scan) : Option Scan :=
  if s.key?.any Key.required then none else some { s with key? := none }

/-- Remembers that a key may start here. -/
def saveKey? (s : Scan) : Option Scan :=
  if s.keyAllowed then
    let key : Key :=
      { number := s.count
        index := s.here.index
        line := s.here.line
        column := s.here.column
        required := !s.inFlow && s.indent = s.here.column }
    s.dropKey?.map fun s => { s with key? := some key }
  else some s

/-- Closes the block collections beyond a column. -/
def closeBeyond (column : Int) (s : Scan) : Scan :=
  if s.inFlow then s
  else
    let closed := s.columns.takeWhile fun (inner : Nat) => column < inner
    closed.foldl (fun s _ => s.push .blockEnd)
      { s with columns := s.columns.drop closed.length }

/-- Opens a block collection at a column, unless the innermost one is as far to the right. The token
that opens it gets the given number. -/
def openAt? (column number : Nat) (token : Token) (s : Scan) : Option Scan :=
  if s.inFlow || column ≤ s.indent then some s
  else if mostOpen ≤ s.columns.length then none
  else some ({ s with columns := column :: s.columns }.insert number token)

/-- Opens a block collection here. -/
def openHere? (token : Token) (s : Scan) : Option Scan :=
  s.openAt? s.here.column s.count token

/-! ## Marks -/

/-- Reads the mark that opens a flow collection. -/
def openFlow? (token : Token) (s : Scan) : Option Scan := do
  let s ← s.saveKey?
  if mostOpen ≤ s.outerKeys.length then none
  return { s with key? := none, outerKeys := s.key? :: s.outerKeys, keyAllowed := true }
    |>.push token |>.moveTo s.here.next

/-- Reads the mark that closes a flow collection. -/
def closeFlow? (token : Token) (s : Scan) : Option Scan := do
  let s ← s.dropKey?
  let s := match s.outerKeys with
    | [] => s
    | key? :: outer => { s with key? := key?, outerKeys := outer }
  return s.allowKey false |>.push token |>.moveTo s.here.next

/-- Reads a comma. -/
def comma? (s : Scan) : Option Scan := do
  let s ← s.dropKey?
  return s.allowKey true |>.push .comma |>.moveTo s.here.next

/-- Reads the dash before an item. -/
def entry? (s : Scan) : Option Scan := do
  if !s.inFlow && !s.keyAllowed then none
  let s ← (← s.openHere? .blockSequence).dropKey?
  return s.allowKey true |>.push .entry |>.moveTo s.here.next

/-- Reads the question mark before a key. -/
def questionMark? (s : Scan) : Option Scan := do
  if !s.inFlow && !s.keyAllowed then none
  let s ← (← s.openHere? .blockMapping).dropKey?
  return s.allowKey (!s.inFlow) |>.push .key |>.moveTo s.here.next

/-- Reads a colon. If a key ends there, it is announced where it started. -/
def colon? (s : Scan) : Option Scan := do
  let c := s.here
  match s.key?.filter fun k => k.reaches c || k.required with
  | some k =>
      if !k.reaches c then none
      let s := { s with key? := none }.insert k.number .key
      let s ← s.openAt? k.column k.number .blockMapping
      return s.allowKey false |>.push .value |>.moveTo c.next
  | none =>
      if !s.inFlow && !s.keyAllowed then none
      let s ← s.openHere? .blockMapping
      return { s with key? := none, keyAllowed := !s.inFlow } |>.push .value |>.moveTo c.next

/-! ## Properties and scalars -/

/-- Reads a token that may start a key, by the given reader. -/
def property? (read : Cursor → Option (Token × Cursor)) (s : Scan) : Option Scan := do
  let s ← s.saveKey?
  let (token, c) ← read s.here
  return s.allowKey false |>.push token |>.moveTo c

/-- Reads a block scalar. -/
def blockScalar? (literal : Bool) (s : Scan) : Option Scan := do
  let s ← s.dropKey?
  let r ← block? s.indent literal s.here
  return s.allowKey true |>.push (.scalar (Utf8.ofChars r.text) false) |>.moveTo r.next

/-- Reads a quoted scalar. -/
def quotedScalar? (double : Bool) : Scan → Option Scan :=
  property? fun c => (quoted? double c).map fun r => (.scalar (Utf8.ofChars r.text) false, r.next)

/-- Reads a plain scalar. Behind a line end a key may start. -/
def plainScalar? (s : Scan) : Option Scan := do
  let s ← s.saveKey?
  let (r, broken) ← plain? s.inFlow (s.indent + 1).toNat s.here
  return s.allowKey broken |>.push (.scalar (Utf8.ofChars r.text) true) |>.moveTo r.next

/-! ## The whole text -/

/-- Ends everything that is open, before something at the start of a line. -/
def settle? (s : Scan) : Option Scan :=
  (s.closeBeyond (-1)).dropKey?.map (allowKey false)

/-- Reads the token that starts with the character here, in the middle of a document. -/
def token? (x : Char) (s : Scan) : Option Scan :=
  let gap := s.inFlow || atGap (s.here.rest.drop 1)
  if x = '[' then s.openFlow? .flowSequence
  else if x = '\x7b' then s.openFlow? .flowMapping
  else if x = ']' then s.closeFlow? .flowSequenceEnd
  else if x = '\x7d' then s.closeFlow? .flowMappingEnd
  else if x = ',' then s.comma?
  else if x = '-' && atGap (s.here.rest.drop 1) then s.entry?
  else if x = '?' && gap then s.questionMark?
  else if x = ':' && gap then s.colon?
  else if x = '*' then s.property? fun c => (anchorName? c).map fun (n, c) => (.reference n, c)
  else if x = '&' then s.property? fun c => (anchorName? c).map fun (n, c) => (.anchor n, c)
  else if x = '!' then s.property? tag?
  else if x = '|' && !s.inFlow then s.blockScalar? true
  else if x = '>' && !s.inFlow then s.blockScalar? false
  else if x = '\'' then s.quotedScalar? false
  else if x = '"' then s.quotedScalar? true
  else if atPlain s.inFlow s.here then s.plainScalar?
  else none

/-- Passes over the rest of the line if it is a comment. One behind a dash belongs to the item. -/
def passRemark (s : Scan) : Scan :=
  if s.tokens.head? = some .entry then s else s.moveTo s.here.passRemark

/-- Reads the next token. -/
def next? (fuel : Nat) (s : Scan) : Option Scan :=
  let (c, keyAllowed) := s.here.seek s.inFlow s.marked fuel s.keyAllowed
  let s := (s.moveTo c).allowKey keyAllowed |>.closeBeyond c.column
  match c.rest with
  | [] => s.settle?.map (push .streamEnd)
  | x :: _ =>
      if c.column = 0 && x = '%' then do
        let s ← s.settle?
        let (token, c) ← directive? c
        return s.push token |>.moveTo c
      else if c.column = 0 && atMarker c.rest then
        s.settle?.map fun s =>
          s.push (if x = '-' then .documentStart else .documentEnd) |>.moveTo (c.skip 3)
      else (s.token? x).map passRemark

/-- How many tokens can be used if no further token can be read. -/
def usable (s : Scan) : Nat :=
  (s.key? :: s.outerKeys).foldl (fun n key? =>
    match key? with
    | some k => if k.reaches s.here || k.required then min n k.number else n
    | none => n) (s.count - 2)

/-- Reads tokens to the end of the text, or to a place where there is none. -/
def run : (fuel : Nat) → Scan → List Token
  | 0, s => s.tokens.reverse.take s.usable
  | fuel + 1, s =>
      match s.next? fuel with
      | none => s.tokens.reverse.take s.usable
      | some s => if s.tokens.head? = some .streamEnd then s.tokens.reverse else run fuel s

end Scan

/-- The tokens of a text, as far as they can be used. Only those of a sound text end with the end of
the stream. -/
def tokens (text : List Char) : List Token :=
  Scan.run (text.length + 1) { here := { rest := text }, marked := text.head? = some '\uFEFF' }

end DefinitionFiles.Yaml
