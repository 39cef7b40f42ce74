import DefinitionFiles.Proofs.Category
import DefinitionFiles.Proofs.Workspace
import DefinitionFiles.Server

/-!
# The files behind file URIs

The file URI of a rooted path holds its cleaned form, and gives it back unless it starts like a drive
letter with a slash in front. So a file has one category and one name, whether it is scanned or opened
in an editor by its URI.
-/

namespace DefinitionFiles

namespace Path

/-- The last piece of a path between slashes of either kind that is not empty, or a slash if there is
none. -/
def lastPiece (p : Bytes) : Bytes :=
  ((pieces p).filter (· ≠ [])).getLast?.getD [slash]

theorem lastElement_concat {s : Bytes} {b : UInt8} (hb : b ≠ slash) :
    lastElement (s ++ [b]) =
      ((Bytes.split slash (s ++ [b])).filter (· ≠ [])).getLast?.getD [slash] := by
  rcases last_cases (s ++ [b]) with h | ⟨front, name, heq, hname⟩
  · rw [lastElement_of_slash_notMem h, Bytes.split_of_notMem h]
    simp
  · have hne : name ≠ [] := by
      rintro rfl
      exact hb (List.append_inj_right' heq rfl |> List.singleton_inj.mp)
    rw [heq, lastElement_append_slash hname, Bytes.split_append_sep, Bytes.split_of_notMem hname,
      List.filter_append, List.filter_singleton]
    simp [hne]

/-- The last element that slashes at the end do not hide is the last one that is not empty. -/
theorem base_eq_getLast? {s : Bytes} (h : s ≠ []) :
    base s = ((Bytes.split slash s).filter (· ≠ [])).getLast?.getD [slash] := by
  have hstripped : ∀ s : Bytes,
      (let stripped := (s.reverse.dropWhile (· == slash)).reverse
        if stripped = [] then [slash] else lastElement stripped) =
      ((Bytes.split slash s).filter (· ≠ [])).getLast?.getD [slash] := by
    intro s
    induction s using List.reverseRecOn with
    | nil => rfl
    | append_singleton s b ih =>
        by_cases hb : b = slash
        · subst hb
          rw [Bytes.split_append_sep, List.filter_append, List.reverse_concat,
            List.dropWhile_cons_of_pos (by simp), ih]
          simp [Bytes.split_of_notMem]
        · rw [List.reverse_concat, List.dropWhile_cons_of_neg (by simpa using hb),
            ← lastElement_concat hb]
          simp
  rw [base, if_neg h, hstripped]

theorem base_replaceByte {p : Bytes} (h : p ≠ []) :
    base (Bytes.replaceByte 0x5C slash p) = lastPiece p :=
  base_eq_getLast? (by simpa [Bytes.replaceByte] using h)

end Path

namespace Uri

/-- Whether a definition has the category and the name of a path. -/
structure Describes (path : Bytes) (definition : Definition) : Prop where
  category : definition.category = Category.classify path
  name : definition.name = Path.lastPiece path

/-! ## Reading a file URI -/

/-- What an escaped path is made of. -/
theorem of_mem_escape {p : Bytes} {b : UInt8} (h : b ∈ escape p) :
    isPathByte b = true ∨ b = 0x25 := by
  have hhex : ∀ n : Fin 16, isPathByte (Bytes.upperHexDigit n) = true := by decide +kernel
  obtain ⟨a, -, hb⟩ := List.mem_flatMap.mp h
  split at hb
  next hpath => exact .inl (List.mem_singleton.mp hb ▸ hpath)
  next =>
    have hhigh : a.toNat / 16 < 16 := by
      have := a.toNat_lt
      omega
    rcases List.mem_cons.mp hb with rfl | hb
    · exact .inr rfl
    · left
      rcases List.mem_pair.mp hb with rfl | rfl
      · exact hhex ⟨_, hhigh⟩
      · exact hhex ⟨_, Nat.mod_lt _ (by decide)⟩

/-- No byte of an escaped path ends the path of a URI or spoils it. -/
theorem safe_of_mem_escape {p : Bytes} {b : UInt8} (h : b ∈ escape p) :
    b ≠ 0x23 ∧ b ≠ 0x3F ∧ isControl b = false := by
  have hbytes : ∀ b : UInt8, isPathByte b = true ∨ b = 0x25 →
      b ≠ 0x23 ∧ b ≠ 0x3F ∧ isControl b = false :=
    Bytes.forall_of_fin (by decide +kernel)
  exact hbytes b (of_mem_escape h)

theorem hierarchy?_escape {path : Bytes} (h : Path.isRooted path = true) (scheme : Bytes) :
    hierarchy? scheme (0x2F :: 0x2F :: escape path) = some ⟨scheme, [], path⟩ := by
  obtain ⟨rest, rfl⟩ := List.head?_eq_some_iff.mp (of_decide_eq_true h)
  have hslash : escape (Path.slash :: rest) = Path.slash :: escape rest := rfl
  have hauthority : authorityHost? [] = some [] := by decide
  have hpath := unescape?_escape (Path.slash :: rest)
  rw [hslash] at hpath
  simp [hierarchy?, hslash, hauthority, hpath]

theorem parse?_escape {path : Bytes} (h : Path.isRooted path = true) :
    parse? (utf8 "file://" ++ escape path) = some ⟨utf8 "file", [], path⟩ := by
  have hfront : ∀ b ∈ utf8 "file://", b ≠ 0x23 ∧ b ≠ 0x3F ∧ isControl b = false := by
    decide +kernel
  have hsafe : ∀ b ∈ utf8 "file://" ++ escape path, b ≠ 0x23 ∧ b ≠ 0x3F ∧ isControl b = false := by
    intro b hb
    exact (List.mem_append.mp hb).elim (hfront b) safe_of_mem_escape
  have hfragment : Bytes.cut? 0x23 (utf8 "file://" ++ escape path) = none :=
    Bytes.cut?_eq_none_iff.mpr fun hb => (hsafe _ hb).1 rfl
  have hcontrol : (utf8 "file://" ++ escape path).any isControl = false := by
    rw [List.any_eq_false]
    exact fun b hb => by simp [(hsafe b hb).2.2]
  have hscheme : scheme? (utf8 "file://" ++ escape path) =
      some (utf8 "file", 0x2F :: 0x2F :: escape path) := by
    have hcut : Bytes.cut? 0x3A (utf8 "file://" ++ escape path) =
        some (utf8 "file", 0x2F :: 0x2F :: escape path) :=
      Bytes.cut?_eq_some_iff.mpr ⟨rfl, by decide +kernel⟩
    rw [scheme?, hcut]
    rfl
  have hquery : (0x2F :: 0x2F :: escape path).takeWhile (· != 0x3F) =
      0x2F :: 0x2F :: escape path := by
    rw [List.takeWhile_eq_self_iff]
    intro b hb
    have hmem : b ∈ utf8 "file://" ++ escape path := by
      have hdrop : 0x2F :: 0x2F :: escape path = (utf8 "file://" ++ escape path).drop 5 := rfl
      exact List.mem_of_mem_drop (hdrop ▸ hb)
    exact bne_iff_ne.mpr (hsafe b hmem).2.1
  simp [parse?, hfragment, hcontrol, hscheme, hquery, hierarchy?_escape h, unescape?]

theorem dropDriveSlash_of_isRooted {path : Bytes} (h : Path.isRooted path = true) :
    dropDriveSlash path = if path[2]? = some 0x3A then path.tail else path := by
  obtain ⟨rest, rfl⟩ := List.head?_eq_some_iff.mp (of_decide_eq_true h)
  match rest with
  | [] => rfl
  | [_] => rfl
  | drive :: b :: rest =>
      by_cases hb : b = 0x3A
      · subst hb
        rfl
      · simp [dropDriveSlash, hb]

variable {p : Bytes} (h : Path.isRooted p = true)

include h

theorem ofPath_of_isRooted (cwd : Bytes) :
    ofPath cwd p = utf8 "file://" ++ escape (Path.clean p) := by
  rw [ofPath, Path.absolute, if_pos h]

theorem toPath_ofPath (cwd : Bytes) :
    toPath (ofPath cwd p) =
      if (Path.clean p)[2]? = some 0x3A then (Path.clean p).tail else Path.clean p := by
  rw [ofPath_of_isRooted h, toPath, parse?_escape (Path.isRooted_clean h),
    ← dropDriveSlash_of_isRooted (Path.isRooted_clean h)]
  rfl

/-- Seen from anywhere, a rooted path has the URI of its cleaned form. -/
theorem ofPath_clean (cwd other : Bytes) : ofPath cwd p = ofPath other (Path.clean p) := by
  rw [ofPath_of_isRooted h, ofPath_of_isRooted (Path.isRooted_clean h), Path.clean_clean h]

/-! ## What is found behind a file URI -/

theorem classify_ofPath (hdrive : (Path.clean p)[2]? ≠ some 0x3A) (cwd : Bytes) :
    classify (ofPath cwd p) = Category.classify (Path.clean p) := by
  rw [classify, toPath_ofPath h, if_neg hdrive]

theorem baseName_ofPath (hdrive : (Path.clean p)[2]? ≠ some 0x3A) (cwd : Bytes) :
    baseName (ofPath cwd p) = Path.lastPiece (Path.clean p) := by
  have hne : Path.clean p ≠ [] := by
    intro hnil
    have hrooted := Path.isRooted_clean h
    rw [hnil] at hrooted
    cases hrooted
  rw [baseName, toPath_ofPath h, if_neg hdrive, Path.base_replaceByte hne]

theorem describes_parse (hdrive : (Path.clean p)[2]? ≠ some 0x3A) (cwd : Bytes) (dialect : Dialect)
    (text : Bytes) :
    Describes (Path.clean p) (Definition.parse dialect (ofPath cwd p) text).1 := by
  constructor
  · rw [Definition.parse, classify_ofPath h hdrive]
  · rw [Definition.parse, baseName_ofPath h hdrive]

theorem exists_describes_of_examine (hdrive : (Path.clean p)[2]? ≠ some 0x3A) {w : Workspace}
    {d : Disk} {result : FileResult} (hresult : w.examine d p = .ok result) :
    ∃ definition, result.definition? = some definition ∧ Describes (Path.clean p) definition := by
  unfold Workspace.examine at hresult
  split at hresult
  next => cases hresult
  next text hread =>
    cases hresult
    exact ⟨_, rfl, describes_parse h hdrive d.cwd w.dialect text⟩

end Uri

/-- A scan examines the files its results are for. -/
theorem Workspace.Examined.of_mem {w : Workspace} {d : Disk} {files : List Bytes}
    {results : List FileResult} (h : Examined w d files results) {result : FileResult}
    (hmem : result ∈ results) : w.examine d result.path = .ok result := by
  induction h with
  | nil => cases hmem
  | @cons path first files rest hfirst _ ih =>
      rcases List.mem_cons.mp hmem with rfl | hrest
      · rwa [path_of_examine hfirst]
      · exact ih hrest

/-- The file URI of a rooted path stands for its cleaned form alone, and gives it back unless it looks
like a drive letter. Then a file has the category and the name of its path, whether a scan finds it or
an editor opens it by its URI. -/
theorem Uri.ofPath_faithful {p : Bytes} (h : Path.isRooted p = true) (cwd : Bytes) :
    let path := Path.clean p
    ofPath cwd p = ofPath cwd path ∧
      (∀ q, Path.isRooted q = true → (ofPath cwd q = ofPath cwd p ↔ Path.clean q = path)) ∧
      (toPath (ofPath cwd p) = path ↔ path.length < 3 ∨ path[2]? ≠ some 0x3A) ∧
      (path[2]? = some 0x3A → toPath (ofPath cwd p) = path.tail) ∧
      (path[2]? ≠ some 0x3A →
        classify (ofPath cwd p) = Category.classify path ∧
        baseName (ofPath cwd p) = Path.lastPiece path ∧
        (∀ (w : Workspace) (d : Disk) cancelled results result,
          w.scan d cancelled = .ok results → result ∈ results → result.path = p →
          ∃ definition, result.definition? = some definition ∧ Describes path definition) ∧
        ∀ (server : Server) (o : Server.Opened), o.uri = ofPath cwd p →
          ∃ definition, (server.opened o).1.store = server.store.append definition ∧
            Describes path definition) := by
  intro path
  have hrooted : Path.isRooted path = true := Path.isRooted_clean h
  have htoPath := toPath_ofPath h cwd
  refine ⟨ofPath_clean h cwd cwd, fun q hq => ?_, ?_, fun hdrive => ?_, fun hdrive => ?_⟩
  · rw [ofPath_of_isRooted h, ofPath_of_isRooted hq, List.append_cancel_left_eq,
      escape_injective.eq_iff]
  · have hshort : path.length < 3 → path[2]? ≠ some 0x3A := fun hlength => by
      simp [List.getElem?_eq_none (Nat.le_of_lt_succ hlength)]
    rw [htoPath, or_iff_right_of_imp hshort]
    split
    next hdrive =>
      -- The tail of a rooted path is shorter than the path.
      have hne : path.tail ≠ path := by
        obtain ⟨rest, hcons⟩ := List.head?_eq_some_iff.mp (of_decide_eq_true hrooted)
        rw [hcons]
        exact fun heq => List.cons_ne_self _ _ heq.symm
      exact iff_of_false hne (not_not_intro hdrive)
    next hdrive => exact iff_of_true rfl hdrive
  · rw [htoPath, if_pos hdrive]
  · refine ⟨classify_ofPath h hdrive cwd, baseName_ofPath h hdrive cwd, ?_, ?_⟩
    · rintro w d cancelled results result hscan hmem rfl
      obtain ⟨-, files, -, hexamined⟩ := Workspace.scan_eq_ok_iff.mp hscan
      exact exists_describes_of_examine h hdrive (hexamined.of_mem hmem)
    · intro server o huri
      refine ⟨(Definition.parse server.settings.dialect o.uri o.text).1, rfl, ?_⟩
      rw [huri]
      exact describes_parse h hdrive cwd _ _

/-- A path with escapes, a query and a backslash in its names, and one that looks like a drive. -/
theorem Uri.ofPath_faithful_marked :
    let p := utf8 "/srv//npc/./100%?a#b\\c:d.dfn"
    let drive := utf8 "/c:/npc/hag.dfn"
    toPath (ofPath [] p) = utf8 "/srv/npc/100%?a#b\\c:d.dfn" ∧
      baseName (ofPath [] p) = utf8 "c:d.dfn" ∧
      toPath (ofPath [] drive) = utf8 "c:/npc/hag.dfn" := by
  intro p drive
  have hclean : Path.clean p = utf8 "/srv/npc/100%?a#b\\c:d.dfn" := by decide +kernel
  have hdrive : Path.clean drive = drive := by decide +kernel
  obtain ⟨-, -, hsame, -, hfound⟩ := ofPath_faithful (p := p) (by decide) []
  obtain ⟨-, -, -, hdropped, -⟩ := ofPath_faithful (p := drive) (by decide) []
  rw [hclean] at hsame hfound
  rw [hdrive] at hdropped
  refine ⟨hsame.mpr (.inr (by decide +kernel)), ?_, hdropped (by decide +kernel)⟩
  rw [(hfound (by decide +kernel)).2.1]
  decide +kernel

end DefinitionFiles
