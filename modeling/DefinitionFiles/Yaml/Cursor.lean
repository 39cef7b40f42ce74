import DefinitionFiles.Yaml.Character

/-!
# Reading positions in YAML text

The meaning of YAML text depends on lines and columns. A cursor is a place in a text that knows
them.
-/

namespace DefinitionFiles.Yaml

/-- A place in a text. -/
structure Cursor where
  /-- What follows. -/
  rest : List Char
  /-- How many characters stand before the place. -/
  index : Nat := 0
  line : Nat := 0
  column : Nat := 0
  /-- Whether only blanks stand between the last line end and the place. -/
  fresh : Bool := false
  deriving Repr

/-- Whether a document starts or ends with the line at the front of a text. -/
def atMarker : List Char → Bool
  | '-' :: '-' :: '-' :: rest | '.' :: '.' :: '.' :: rest => atGap rest
  | _ => false

namespace Cursor

/-- The place after one character. -/
def next (c : Cursor) : Cursor :=
  match c.rest with
  | [] => c
  | x :: rest =>
      if isBreak x then
        { rest := rest, index := c.index + 1, line := c.line + 1, column := 0, fresh := true }
      else
        { rest := rest, index := c.index + 1, line := c.line, column := c.column + 1
          fresh := c.fresh && isBlank x }

/-- The place after `n` characters. -/
def skip (c : Cursor) : (n : Nat) → Cursor
  | 0 => c
  | n + 1 => c.next.skip n

/-- The place after all characters that satisfy `p`. -/
def skipWhile (p : Char → Bool) (c : Cursor) : Cursor :=
  c.skip (c.rest.takeWhile p).length

/-- The place where the line ends. -/
def toLineEnd (c : Cursor) : Cursor :=
  c.skipWhile fun x => !isBreak x

/-- Whether the given character is here. -/
def isAt (c : Cursor) (x : Char) : Bool :=
  c.rest.head? = some x

/-- Whether a line ends here, or the text. -/
def atLineEnd (c : Cursor) : Bool :=
  c.rest.head?.all isBreak

/-- The place behind what follows the last token of a line: blanks and a comment. A line that holds
no token yet is left alone, and so are blanks without a comment. -/
def passRemark (c : Cursor) : Cursor :=
  if !c.fresh && (c.rest.dropWhile isBlank).head? = some '#' then c.toLineEnd else c

/-- The place behind a comment and those that follow it, with only blanks and empty lines between
them. -/
def passComments : (fuel : Nat) → Cursor → Cursor
  | 0, c => c
  | fuel + 1, c =>
      let c := c.toLineEnd
      match c.rest with
      | '\n' :: rest =>
          let gap := rest.takeWhile fun x => isBlank x || x = '\n'
          if (rest.drop gap.length).head? = some '#' then
            passComments fuel (c.skip (gap.length + 1))
          else c
      | _ => c

/-- The place of the next token, and whether a key may start there. White space, line ends and
comments are passed over. A tab counts as white space inside flow collections, and elsewhere where
no key may start; behind a line end one may. If `marked`, the first character of every line is
passed over too. -/
def seek (flow marked : Bool) : (fuel : Nat) → (keyAllowed : Bool) → Cursor → Cursor × Bool
  | 0, keyAllowed, c => (c, keyAllowed)
  | fuel + 1, keyAllowed, c =>
      let c := if marked && c.column = 0 then c.next else c
      let c := c.skipWhile fun x => x = ' ' || ((flow || !keyAllowed) && x = '\t')
      let c := if c.isAt '#' then c.passComments (c.rest.length + 1) else c
      if c.rest != [] && c.atLineEnd then seek flow marked fuel (keyAllowed || !flow) c.next
      else (c, keyAllowed)

end Cursor

end DefinitionFiles.Yaml
