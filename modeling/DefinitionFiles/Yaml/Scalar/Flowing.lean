import DefinitionFiles.Text.Bytes
import DefinitionFiles.Yaml.Cursor

/-!
# Flowing scalars

Plain and quoted scalars flow over lines: a single line end inside one is a space, and each
further one is kept.
-/

namespace DefinitionFiles.Yaml

/-- A scalar that was read, and the place behind it. -/
structure Read where
  text : List Char
  next : Cursor

/-- White space and line ends that may turn out to be part of a scalar. -/
inductive Gap where
  | blanks (chars : List Char)
  /-- Line ends. The first one is missing if it was escaped. -/
  | lines (first? : Option Char) (more : List Char)

namespace Gap

/-- What a gap contributes to a scalar. -/
def text : Gap → List Char
  | .blanks chars => chars
  | .lines (some '\n') [] => [' ']
  | .lines (some '\n') more => more
  | .lines first? more => first?.toList ++ more

/-- The gap with one more blank. -/
def blank (c : Char) : Gap → Gap
  | .blanks chars => .blanks (chars ++ [c])
  | gap => gap

/-- The gap with one more line end. -/
def lineEnd (c : Char) : Gap → Gap
  | .blanks _ => .lines (some c) []
  | .lines first? more => .lines first? (more ++ [c])

/-- Whether a line ends in the gap. -/
def isBroken : Gap → Bool
  | .blanks _ => false
  | .lines _ _ => true

/-- Whether there is no gap at all. -/
def isEmpty : Gap → Bool
  | .blanks [] => true
  | _ => false

end Gap

/-! ## Plain scalars -/

/-- Whether a character ends a plain scalar in a flow collection. -/
def isFlowMark (c : Char) : Bool :=
  [',', '?', '[', ']', '\x7b', '\x7d'].contains c

/-- Whether a plain scalar ends before the character here, given what was passed since the last
one. Its lines must reach the column `indent` unless it stands in a flow collection. -/
def plainEnds (flow : Bool) (indent : Nat) (gap : Gap) (c : Cursor) : Bool :=
  (c.isAt ':' && atGap (c.rest.drop 1)) || (flow && c.rest.head?.any isFlowMark) ||
    (!gap.isEmpty && (c.isAt '#' || (c.column = 0 && atMarker c.rest) ||
      (!flow && c.column < indent)))

/-- Reads the rest of a plain scalar from the text at a place, and says whether a line ended behind
it. After a line end, a tab must not stand before the column `indent`. -/
def plainFrom (flow : Bool) (indent : Nat) :
    (text : List Char) → (done : List Char) → (gap : Gap) → Cursor → Option (Read × Bool)
  | [], done, gap, c => some (⟨done.reverse, c⟩, gap.isBroken)
  | x :: text, done, gap, c =>
      if isBreak x then plainFrom flow indent text done (gap.lineEnd x) c.next
      else if isBlank x then
        if gap.isBroken && x = '\t' && c.column < indent then none
        else plainFrom flow indent text done (gap.blank x) c.next
      else if plainEnds flow indent gap c then some (⟨done.reverse, c⟩, gap.isBroken)
      else plainFrom flow indent text (x :: (gap.text.reverse ++ done)) (.blanks []) c.next

/-- Reads a plain scalar, and says whether a line ended behind it. -/
def plain? (flow : Bool) (indent : Nat) (c : Cursor) : Option (Read × Bool) :=
  plainFrom flow indent c.rest [] (.blanks []) c

/-- Whether a plain scalar can start here. -/
def atPlain (flow : Bool) (c : Cursor) : Bool :=
  match c.rest with
  | [] => false
  | x :: rest =>
      if x = '-' then !atGap rest
      else if x = '?' || x = ':' then !flow && !atGap rest
      else !atGap [x] && !(",[]\x7b\x7d#&*!|>'\"%@`".toList.contains x)

/-! ## Quoted scalars -/

/-- The character that a short escape stands for. -/
def shortEscape? (c : Char) : Option Char :=
  [('0', '\x00'), ('a', '\x07'), ('b', '\x08'), ('t', '\t'), ('\t', '\t'), ('n', '\n'),
    ('v', '\x0b'), ('f', '\x0c'), ('r', '\r'), ('e', '\x1b'), (' ', ' '), ('"', '"'),
    ('\'', '\''), ('\\', '\\'), ('N', '\u0085'), ('_', '\u00A0'), ('L', '\u2028'),
    ('P', '\u2029')].lookup c

/-- How many digits an escape by number has. -/
def escapeWidth? (c : Char) : Option Nat :=
  [('x', 2), ('u', 4), ('U', 8)].lookup c

/-- The value of a hexadecimal digit. -/
def hexDigit? (c : Char) : Option Nat :=
  if c.toNat < 0x80 then Bytes.hexValue? c.toNat.toUInt8 else none

/-- The value of hexadecimal digits. -/
def hexNumber? (digits : List Char) : Option Nat :=
  digits.foldlM (fun n c => (hexDigit? c).map (16 * n + ·)) 0

/-- The character with the given number, unless there is none. -/
def charOf? (n : Nat) : Option Char :=
  if n.isValidChar then some (Char.ofNat n) else none

/-- Reads an escape after its backslash: the character, and how many characters it took. -/
def escape? (text : List Char) : Option (Char × Nat) :=
  match text with
  | [] => none
  | c :: rest =>
      match shortEscape? c, escapeWidth? c with
      | some e, _ => some (e, 1)
      | none, some width => do
          if (rest.take width).length < width then none
          let e ← charOf? (← hexNumber? (rest.take width))
          return (e, width + 1)
      | none, none => none

/-- Reads the rest of a scalar in single or double quotes. A single quote is written twice, and a
backslash escapes only between double quotes, line ends included. -/
def quotedFrom (double : Bool) :
    (fuel : Nat) → (done : List Char) → (gap : Gap) → Cursor → Option Read
  | 0, _, _, _ => none
  | fuel + 1, done, gap, c =>
      match c.rest with
      | [] => none
      | x :: rest =>
          let quote := if double then '"' else '\''
          let whole := gap.text.reverse ++ done
          if isBreak x then quotedFrom double fuel done (gap.lineEnd x) c.next
          else if isBlank x then quotedFrom double fuel done (gap.blank x) c.next
          else if c.column = 0 && atMarker c.rest then none
          else if !double && x = quote && rest.head? = some quote then
            quotedFrom double fuel (quote :: whole) (.blanks []) (c.skip 2)
          else if x = quote then some ⟨whole.reverse, c.next⟩
          else if double && x = '\\' then
            if rest.head?.any isBreak then quotedFrom double fuel whole (.lines none []) (c.skip 2)
            else match escape? rest with
              | some (e, taken) =>
                  quotedFrom double fuel (e :: whole) (.blanks []) (c.skip (taken + 1))
              | none => none
          else quotedFrom double fuel (x :: whole) (.blanks []) c.next

/-- Reads the quoted scalar that starts here. -/
def quoted? (double : Bool) (c : Cursor) : Option Read :=
  quotedFrom double (c.rest.length + 1) [] (.blanks []) c.next

end DefinitionFiles.Yaml
