import DefinitionFiles.Category
import DefinitionFiles.Proofs.Path.Segments
import Mathlib.Data.List.Find

/-!
# Categories by directory

A path has the first category whose directory name is a segment of the directory it lies in. All
segments of a rooted directory count, and all but the first one of a relative directory. Neither the
kind of slash nor empty segments nor `.` make a difference, and what stands behind the last slash does
not either.
-/

namespace DefinitionFiles

namespace Bytes

theorem occursIn_iff {word s : Bytes} : occursIn word s = true ↔ word <:+: s := by
  rw [occursIn, Option.isSome_iff_ne_none, ne_eq, find?_eq_none_iff, not_not]

/-- A word stands between two separators, the last one of them behind the text, exactly if it is a piece
of the text and not the first one. -/
theorem infix_iff_mem_tail_split {sep : UInt8} {word s : Bytes} (hword : sep ∉ word) :
    sep :: (word ++ [sep]) <:+: s ++ [sep] ↔ word ∈ (split sep s).tail := by
  have htail : ∀ front pieces : List Bytes, front ≠ [] → word ∈ pieces →
      word ∈ (front ++ pieces).tail := by
    intro front pieces hfront hmem
    rw [List.tail_append_of_ne_nil hfront]
    exact List.mem_append_right _ hmem
  constructor
  · rintro ⟨front, back, heq⟩
    rcases List.eq_nil_or_concat back with rfl | ⟨back, b, rfl⟩
    · have hs : s = front ++ sep :: word := by
        have hback : front ++ sep :: word ++ [sep] = s ++ [sep] := by
          simp [← heq]
        exact (List.append_cancel_right hback).symm
      rw [hs, split_append_sep, split_of_notMem hword]
      exact htail _ _ (split_ne_nil sep front) List.mem_cons_self
    · have hs : s = front ++ sep :: (word ++ sep :: back) := by
        have hback : front ++ sep :: (word ++ sep :: back) ++ [b] = s ++ [sep] := by
          simp [← heq]
        exact (List.append_inj_left' hback rfl).symm
      rw [hs, split_append_sep, split_append_cons hword]
      exact htail _ _ (split_ne_nil sep front) List.mem_cons_self
  · intro hmem
    obtain ⟨first, pieces, hpieces⟩ := List.exists_cons_of_ne_nil (split_ne_nil sep s)
    rw [hpieces, List.tail_cons] at hmem
    obtain ⟨earlier, later, rfl⟩ := List.append_of_mem hmem
    rw [← List.cons_append] at hpieces
    obtain ⟨front, rest, rfl, hfront, hcount, -, hrest⟩ := exists_append_of_split hpieces
    have hsep : front.getLast? = some sep := by
      apply hfront.resolve_left
      rintro rfl
      simp at hcount
    obtain ⟨front, rfl⟩ := List.getLast?_eq_some_iff.mp hsep
    rcases hrest with ⟨rfl, -⟩ | ⟨behind, rfl, -⟩
    · exact ⟨front, [], by simp⟩
    · exact ⟨front, behind ++ [sep], by simp⟩

end Bytes

namespace Path

/-- The pieces of a path between slashes of either kind. -/
def pieces (p : Bytes) : List Bytes :=
  Bytes.split slash (Bytes.replaceByte 0x5C slash p)

/-- The segments of the directory part of a path, apart from those that vanish. -/
def directory (p : Bytes) : List Bytes :=
  (pieces p).dropLast.filter fun segment => segment ≠ [] ∧ segment ≠ dot

/-- The cleaned directory part of a path with slashes of either kind. -/
def cleanDir (p : Bytes) : Bytes :=
  dir (Bytes.replaceByte 0x5C slash p)

/-- Segments that vanish make no difference to whatever passes over them. -/
theorem foldl_filter_of_skip {α : Type} {f : α → Bytes → α}
    (hskip : ∀ a segment, segment = [] ∨ segment = dot → f a segment = a) (segments : List Bytes)
    (start : α) :
    (segments.filter fun segment => segment ≠ [] ∧ segment ≠ dot).foldl f start =
      segments.foldl f start := by
  induction segments generalizing start with
  | nil => rfl
  | cons segment rest ih =>
      by_cases hvanishes : segment = [] ∨ segment = dot
      · rw [List.foldl_cons, hskip _ _ hvanishes, ← ih, List.filter_cons_of_neg]
        simpa using fun hnil => hvanishes.resolve_left hnil
      · obtain ⟨hnil, hdot⟩ := not_or.mp hvanishes
        rw [List.filter_cons_of_pos (by simp [hnil, hdot]), List.foldl_cons, List.foldl_cons, ih]

/-- A path has no slash, or a last one. -/
theorem last_cases (p : Bytes) :
    slash ∉ p ∨ ∃ front name, p = front ++ slash :: name ∧ slash ∉ name := by
  cases hcut : Bytes.cutLast? slash p with
  | none => exact .inl (Bytes.cutLast?_eq_none_iff.mp hcut)
  | some parts => exact .inr ⟨parts.1, parts.2, Bytes.cutLast?_eq_some_iff.mp hcut⟩

theorem upToLastSlash_of_notMem {p : Bytes} (h : slash ∉ p) : upToLastSlash p = [] := by
  rw [upToLastSlash, List.reverse_eq_nil_iff, List.dropWhile_eq_nil_iff]
  intro b hb
  have hne : b ≠ slash := fun heq => h (heq ▸ List.mem_reverse.mp hb)
  simpa using hne

theorem split_upToLastSlash (p : Bytes) :
    Bytes.split slash (upToLastSlash p) = (Bytes.split slash p).dropLast ++ [[]] := by
  rcases last_cases p with h | ⟨front, name, rfl, hname⟩
  · rw [upToLastSlash_of_notMem h, Bytes.split_of_notMem h]
    rfl
  · rw [upToLastSlash_append_slash hname, Bytes.split_append_sep, Bytes.split_append_sep,
      Bytes.split_of_notMem hname, List.dropLast_concat]
    rfl

theorem isRooted_upToLastSlash (p : Bytes) : isRooted (upToLastSlash p) = isRooted p := by
  rcases last_cases p with h | ⟨front, name, rfl, hname⟩
  · rw [upToLastSlash_of_notMem h]
    cases p with
    | nil => rfl
    | cons b p =>
        have hb : b ≠ slash := fun heq => h (heq ▸ List.mem_cons_self)
        simp [isRooted, hb]
  · rw [upToLastSlash_append_slash hname]
    cases front <;> rfl

theorem foldl_directory {α : Type} {f : α → Bytes → α}
    (hskip : ∀ a segment, segment = [] ∨ segment = dot → f a segment = a) (p : Bytes) (start : α) :
    (directory p).foldl f start =
      (Bytes.split slash (upToLastSlash (Bytes.replaceByte 0x5C slash p))).foldl f start := by
  rw [directory, pieces, foldl_filter_of_skip hskip, split_upToLastSlash, List.foldl_concat,
    hskip _ _ (.inl rfl)]

theorem isRooted_cleanDir (p : Bytes) :
    isRooted (cleanDir p) = isRooted (Bytes.replaceByte 0x5C slash p) := by
  rw [cleanDir, dir, isRooted_clean_eq, isRooted_upToLastSlash]

/-- The cleaned directory part depends on the segments of the directory that do not vanish. -/
theorem cleanDir_congr {p q : Bytes}
    (hrooted : isRooted (Bytes.replaceByte 0x5C slash p) = isRooted (Bytes.replaceByte 0x5C slash q))
    (hdirectory : directory p = directory q) : cleanDir p = cleanDir q := by
  have hsegments : ∀ path, cleanSegments (upToLastSlash (Bytes.replaceByte 0x5C slash path)) =
      ((directory path).foldl (pushSegment (isRooted (Bytes.replaceByte 0x5C slash path)))
        []).reverse := by
    intro path
    rw [foldl_directory fun done _ hskip => pushSegment_of_skip hskip _ done, cleanSegments,
      isRooted_upToLastSlash]
  rw [cleanDir, cleanDir, dir, dir, clean, clean, isRooted_upToLastSlash, isRooted_upToLastSlash,
    hsegments, hsegments, hrooted, hdirectory]

/-- The names in a rooted directory part are those its segments descend to. -/
theorem mem_split_cleanDir_iff {p name : Bytes} (h : isRooted (cleanDir p) = true) (hname : name ≠ []) :
    name ∈ Bytes.split slash (cleanDir p) ↔ name ∈ (directory p).foldl descend [] := by
  have hrooted : isRooted (upToLastSlash (Bytes.replaceByte 0x5C slash p)) = true := by
    rwa [isRooted_upToLastSlash, ← isRooted_cleanDir]
  rw [foldl_directory fun names _ hskip => descend_of_skip hskip names,
    ← cleanSegments_eq_foldl_descend hrooted, cleanDir, dir, clean, hrooted]
  have hslash : ∀ segment ∈ cleanSegments (upToLastSlash (Bytes.replaceByte 0x5C slash p)),
      slash ∉ segment :=
    fun segment hmem => (isName_of_mem_cleanSegments hrooted segment hmem).slash_notMem
  generalize cleanSegments (upToLastSlash (Bytes.replaceByte 0x5C slash p)) = segments at hslash
  rw [ofSegments, if_pos rfl, Bytes.split_cons, if_pos rfl, List.mem_cons, or_iff_right hname]
  by_cases hne : segments = []
  · simp [hne, Bytes.join, Bytes.split, hname]
  · rw [Bytes.split_join hne hslash]

end Path

namespace Category

theorem dirName_of_mem {c : Category} (h : c ∈ all) : c.dirName ≠ [] ∧ Path.slash ∉ c.dirName := by
  have hall : ∀ c ∈ all, c.dirName ≠ [] ∧ Path.slash ∉ c.dirName := by decide +kernel
  exact hall c h

/-- A category is found by its directory name in a directory exactly if the name is a segment with a
slash in front of it. -/
theorem occursIn_iff_mem_tail {c : Category} (h : c ∈ all) (dir : Bytes) :
    Bytes.occursIn (Path.slash :: c.dirName ++ [Path.slash])
        (if dir.getLast? = some Path.slash then dir else dir ++ [Path.slash]) = true ↔
      c.dirName ∈ (Bytes.split Path.slash dir).tail := by
  obtain ⟨hne, hslash⟩ := dirName_of_mem h
  rw [Bytes.occursIn_iff, List.cons_append]
  split
  next hlast =>
    obtain ⟨front, rfl⟩ := List.getLast?_eq_some_iff.mp hlast
    rw [Bytes.infix_iff_mem_tail_split hslash, Bytes.split_append_sep,
      List.tail_append_of_ne_nil (Bytes.split_ne_nil _ _)]
    simp [Bytes.split, hne]
  next => exact Bytes.infix_iff_mem_tail_split hslash

theorem classify_eq_find? (p : Bytes) :
    classify p = (all.find? fun c => c.dirName ∈
      (Bytes.split Path.slash (Path.cleanDir p)).tail).getD none := by
  rw [classify]
  congr 1
  apply List.find?_congr
  intro c hc
  rw [Bool.eq_iff_iff, decide_eq_true_iff]
  exact occursIn_iff_mem_tail hc _

/-- The category of a path is the first one whose directory name is a segment of the cleaned directory
part with a slash in front of it. In a rooted directory every segment counts: these are the segments of
the path that are left when each `..` takes back the one before it. Paths have the same category if their
directory parts have the same segments, apart from empty ones and `.`, and both are rooted or both are
not. -/
theorem classify_first (p : Bytes) :
    let dir := Path.cleanDir p
    classify p = (all.find? fun c => c.dirName ∈ (Bytes.split Path.slash dir).tail).getD none ∧
      (Path.isRooted dir = true →
        classify p = (all.find? fun c => c.dirName ∈ Bytes.split Path.slash dir).getD none ∧
          ∀ c ∈ all, c.dirName ∈ Bytes.split Path.slash dir ↔
            c.dirName ∈ (Path.directory p).foldl Path.descend []) ∧
      ∀ q, Path.isRooted (Bytes.replaceByte 0x5C Path.slash q) =
          Path.isRooted (Bytes.replaceByte 0x5C Path.slash p) →
        Path.directory q = Path.directory p → classify q = classify p := by
  intro dir
  refine ⟨classify_eq_find? p, fun hrooted => ⟨?_, fun c hc => ?_⟩, fun q hrooted hdirectory => ?_⟩
  · rw [classify_eq_find?]
    congr 1
    apply List.find?_congr
    intro c hc
    have hfirst : Bytes.split Path.slash dir = [] :: (Bytes.split Path.slash dir).tail := by
      obtain ⟨rest, hrest⟩ := List.head?_eq_some_iff.mp (of_decide_eq_true hrooted)
      rw [hrest, Bytes.split_cons, if_pos rfl, List.tail_cons]
    rw [hfirst, Bool.eq_iff_iff, decide_eq_true_iff, decide_eq_true_iff, List.mem_cons,
      or_iff_right (dirName_of_mem hc).1, List.tail_cons]
  · exact Path.mem_split_cleanDir_iff hrooted (dirName_of_mem hc).1
  · rw [classify_eq_find?, classify_eq_find?, Path.cleanDir_congr hrooted hdirectory]

/-- Slashes of both kinds, empty segments and `.` change nothing, and `..` takes `npc` back. -/
theorem classify_first_mixed :
    let p := utf8 "/srv/npc/../harditems//items\\.\\npc"
    let q := utf8 "\\srv/npc\\./..\\harditems/items/sword.dfn"
    let items : Category := ⟨1⟩
    (Path.directory p).foldl Path.descend [] = [utf8 "srv", utf8 "harditems", utf8 "items"] ∧
      items.dirName ∈ Bytes.split Path.slash (Path.cleanDir p) ∧
      classify p = items ∧ classify q = classify p := by
  intro p q items
  obtain ⟨-, hcounts, hsame⟩ := classify_first p
  have hrooted : Path.isRooted (Path.cleanDir p) = true := by decide +kernel
  have hnames : (Path.directory p).foldl Path.descend [] =
      [utf8 "srv", utf8 "harditems", utf8 "items"] := by
    decide +kernel
  obtain ⟨hfirst, hmem⟩ := hcounts hrooted
  refine ⟨hnames, ?_, ?_, hsame q (by decide) (by decide +kernel)⟩
  · rw [hmem items (by decide), hnames]
    decide +kernel
  · rw [hfirst]
    decide +kernel

end Category

end DefinitionFiles
