import DefinitionFiles.Yaml.Scalar.Flowing

/-!
# Block scalars

A block scalar is a block of indented lines. Its first line says how it is read: whether line ends
are kept or folded, what happens to those at the end, and by how much the lines are indented.
-/

namespace DefinitionFiles.Yaml

/-- What happens to the line ends at the end of a block scalar. -/
inductive Chomp where
  | strip
  | clip
  | keep
  deriving DecidableEq, Repr

/-- How a block scalar is read. -/
structure BlockStyle where
  /-- Whether line ends are kept as they are. -/
  literal : Bool
  chomp : Chomp := .clip
  /-- By how many columns the lines are indented, if that is written down. -/
  indent? : Option Nat := none

/-- The digit that says how far a block scalar is indented. -/
def indentDigit? (c : Char) : Option Nat :=
  if '1' ≤ c && c ≤ '9' then some (c.toNat - '0'.toNat) else none

/-- The mark that says what happens to final line ends. -/
def chompMark? (c : Char) : Option Chomp :=
  if c = '+' then some .keep else if c = '-' then some .strip else none

/-- The style with the meaning of one more mark, if the character is a mark that is still
missing. -/
def BlockStyle.mark? (style : BlockStyle) (c : Char) : Option BlockStyle :=
  match chompMark? c, indentDigit? c with
  | some m, _ => if style.chomp = .clip then some { style with chomp := m } else none
  | none, some n => if style.indent?.isNone then some { style with indent? := some n } else none
  | none, none => none

/-- Reads the marks of a block scalar: one of each kind, in any order. -/
def blockMarks (style : BlockStyle) (c : Cursor) : BlockStyle × Cursor :=
  match c.rest.head?.bind style.mark? with
  | none => (style, c)
  | some style =>
      match c.next.rest.head?.bind style.mark? with
      | none => (style, c.next)
      | some style => (style, c.next.next)

/-- The place behind the first line of a block scalar, given the place behind its marks. The line
may hold a comment only. -/
def blockHeaderEnd? (c : Cursor) : Option Cursor :=
  let c := c.skipWhile isBlank
  let c := if c.isAt '#' then c.toLineEnd else c
  if c.atLineEnd then some c.next else none

/-- Empty lines and indentation that were passed. -/
structure Margin where
  /-- The line ends, last one first. -/
  breaks : List Char
  /-- The column that the widest indentation reached. -/
  widest : Nat
  next : Cursor

/-- Passes empty lines and the indentation up to the column `indent`, or up to any column as long
as it is not known. A tab must not stand in the indentation. -/
def margin (indent? : Option Nat) :
    (fuel : Nat) → (breaks : List Char) → (widest : Nat) → Cursor → Option Margin
  | 0, _, _, _ => none
  | fuel + 1, breaks, widest, c =>
      let spaces := (c.rest.takeWhile (· == ' ')).length
      let c := c.skip (match indent? with
        | some n => min spaces (n - c.column)
        | none => spaces)
      let widest := max widest c.column
      if c.isAt '\t' && indent?.all (c.column < ·) then none
      else match c.rest with
        | x :: _ =>
            if isBreak x then margin indent? fuel (x :: breaks) widest c.next
            else some ⟨breaks, widest, c⟩
        | [] => some ⟨breaks, widest, c⟩

/-- What is known between two lines of a block scalar. -/
structure BlockState where
  /-- The text so far, last character first. -/
  done : List Char := []
  /-- The line end of the last line. -/
  lineEnd? : Option Char := none
  /-- The line ends of the empty lines after it, last one first. -/
  breaks : List Char
  /-- Whether the last line started with white space. -/
  blankLed : Bool := false

/-- Adds a line to a block scalar. -/
def BlockState.push (literal : Bool) (s : BlockState) (line : List Char)
    (lineEnd? : Option Char) : BlockState :=
  let blankLed := line.head?.any isBlank
  let joint : List Char :=
    if !literal && !s.blankLed && !blankLed && s.lineEnd? = some '\n' then
      if s.breaks = [] then [' '] else []
    else s.lineEnd?.toList
  { done := line.reverse ++ s.breaks ++ joint ++ s.done
    lineEnd? := lineEnd?, breaks := [], blankLed := blankLed }

/-- The text of a block scalar that ends here. -/
def BlockState.finish (chomp : Chomp) (s : BlockState) : List Char :=
  let kept := match chomp with
    | .strip => []
    | .clip => s.lineEnd?.toList
    | .keep => s.breaks ++ s.lineEnd?.toList
  (kept ++ s.done).reverse

/-- Reads the lines of a block scalar with the given indentation. -/
def blockLines (literal : Bool) (indent : Nat) :
    (fuel : Nat) → BlockState → Cursor → Option (BlockState × Cursor)
  | 0, _, _ => none
  | fuel + 1, s, c =>
      if c.column = indent && c.rest != [] then
        let line := c.rest.takeWhile fun x => !isBreak x
        let stop := c.toLineEnd
        match margin (some indent) (stop.rest.length + 1) [] 0 stop.next with
        | none => none
        | some m =>
            let s := s.push literal line stop.rest.head?
            blockLines literal indent fuel { s with breaks := m.breaks } m.next
      else some (s, c)

/-- Reads the block scalar that starts here, in a collection with the given indentation, which is
-1 at the top. -/
def block? (parent : Int) (literal : Bool) (c : Cursor) : Option Read := do
  let (style, c) := blockMarks { literal := literal } c.next
  let c ← blockHeaderEnd? c
  let given? := style.indent?.map fun n => (max parent 0).toNat + n
  let m ← margin given? (c.rest.length + 1) [] 0 c
  let indent := given?.getD (max m.widest (max (parent + 1) 1).toNat)
  let (s, c) ← blockLines literal indent (c.rest.length + 1) { breaks := m.breaks } m.next
  return ⟨s.finish style.chomp, c⟩

end DefinitionFiles.Yaml
