import DefinitionFiles.Path
import DefinitionFiles.Text.Quoted

/-!
# Categories

A definition file belongs to the category of the directory it lives in. Categories have a number,
a tag and a directory name; the number 0 stands for no category, and numbers past the last
category are carried along without a name.
-/

namespace DefinitionFiles

/-- A category number. -/
structure Category where
  number : UInt8
  deriving DecidableEq, Repr

namespace Category

/-- The tags and directory names of the categories, from number 1 on. -/
def names : List (String × String) :=
  [("items", "items"), ("npc", "npc"), ("create", "create"), ("regions", "regions"),
    ("misc", "misc"), ("skills", "skills"), ("location", "location"), ("menus", "menus"),
    ("spells", "spells"), ("newbie", "newbie"), ("titles", "titles"), ("advance", "advance"),
    ("house", "house"), ("colors", "colors"), ("spawn", "spawn"), ("html", "html"),
    ("race", "race"), ("weather", "weather"), ("hard_items", "harditems"),
    ("command", "command"), ("msgboard", "msgboard"), ("carve", "carve"),
    ("creatures", "creatures"), ("maps", "maps")]

/-- No category. -/
def none : Category := ⟨0⟩

/-- Every named category in ascending order. -/
def all : List Category :=
  (List.range names.length).map fun i => ⟨(i + 1).toUInt8⟩

/-- The tag and the directory name of a category, both empty when it has none. -/
def entry (c : Category) : String × String :=
  if c.number = 0 then ("", "") else names.getD (c.number.toNat - 1) ("", "")

/-- The tag of a category. -/
def tag (c : Category) : Bytes :=
  utf8 c.entry.1

/-- The name of the directories that hold files of the category. -/
def dirName (c : Category) : Bytes :=
  utf8 c.entry.2

/-- A name that is neither the tag nor the directory name of a category. -/
structure Unknown where
  name : Bytes
  deriving DecidableEq, Repr

/-- The wording of the error. -/
def Unknown.message (e : Unknown) : Bytes :=
  utf8 "unknown category: " ++ quoted e.name

/-- The first category with the given tag or directory name. -/
def ofName (name : Bytes) : Except Unknown Category :=
  match all.find? fun c => c.tag = name || c.dirName = name with
  | some c => .ok c
  | Option.none => .error ⟨name⟩

/-- The first category whose directory name is a whole segment, with a slash before it, of the
cleaned directory part of a path. Backslashes count as slashes. -/
def classify (p : Bytes) : Category :=
  let dir := Path.dir (Bytes.replaceByte 0x5C Path.slash p)
  let dir := if dir.getLast? = some Path.slash then dir else dir ++ [Path.slash]
  (all.find? fun c => Bytes.occursIn (Path.slash :: c.dirName ++ [Path.slash]) dir).getD none

end Category

end DefinitionFiles
