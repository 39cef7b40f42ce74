import DefinitionFiles.Proofs.Path

/-!
# Segments of paths

Cleaning leaves names, behind `..` where a relative path starts above its origin. Cleaning twice
changes nothing. Seen from a directory, a path and its cleaned form descend to the same names, which
are those of its absolute form; names added to the path are added to them.
-/

namespace DefinitionFiles.Path

/-- Whether segments, last first, are what cleaning leaves: names, and in front of them `..` if the
path is not rooted. -/
def IsNormal (rooted : Bool) : List Bytes → Prop
  | [] => True
  | segment :: earlier =>
      (IsName segment ∨ segment = dotdot ∧ rooted = false ∧ ∀ other ∈ earlier, other = dotdot) ∧
        IsNormal rooted earlier

/-- The names one segment further, where `..` takes back the last name. -/
def descend (names : List Bytes) (segment : Bytes) : List Bytes :=
  if segment = [] || segment = dot then names
  else if segment = dotdot then names.dropLast
  else names ++ [segment]

/-! ## What cleaning leaves -/

theorem isNormal_nil (rooted : Bool) : IsNormal rooted [] :=
  trivial

theorem slash_notMem_dotdot : slash ∉ dotdot := by decide

/-- A segment vanishes, goes up, or is a name. -/
theorem segment_cases {segment : Bytes} (h : slash ∉ segment) :
    (segment = [] ∨ segment = dot) ∨ segment = dotdot ∨ IsName segment := by
  by_cases hskip : segment = [] ∨ segment = dot
  · exact .inl hskip
  · by_cases hup : segment = dotdot
    · exact .inr (.inl hup)
    · obtain ⟨hnil, hdot⟩ := not_or.mp hskip
      exact .inr (.inr ⟨hnil, hdot, hup, h⟩)

theorem pushSegment_of_skip {segment : Bytes} (h : segment = [] ∨ segment = dot) (rooted : Bool)
    (done : List Bytes) : pushSegment rooted done segment = done := by
  rcases h with rfl | rfl <;> rfl

theorem descend_of_skip {segment : Bytes} (h : segment = [] ∨ segment = dot)
    (names : List Bytes) : descend names segment = names := by
  rcases h with rfl | rfl <;> rfl

theorem descend_dotdot (names : List Bytes) : descend names dotdot = names.dropLast :=
  rfl

theorem IsName.descend_eq {segment : Bytes} (h : IsName segment) (names : List Bytes) :
    descend names segment = names ++ [segment] := by
  simp [descend, h.ne_nil, h.ne_dot, h.ne_dotdot]

theorem IsNormal.isName_or_dotdot {rooted : Bool} {segments : List Bytes}
    (h : IsNormal rooted segments) : ∀ segment ∈ segments, IsName segment ∨ segment = dotdot := by
  induction segments with
  | nil => exact fun _ hnil => absurd hnil List.not_mem_nil
  | cons first earlier ih =>
      exact List.forall_mem_cons.mpr ⟨h.1.imp_right And.left, ih h.2⟩

theorem IsNormal.slash_notMem {rooted : Bool} {segments : List Bytes} (h : IsNormal rooted segments) :
    ∀ segment ∈ segments, slash ∉ segment := by
  intro segment hsegment
  rcases h.isName_or_dotdot segment hsegment with hname | rfl
  · exact hname.slash_notMem
  · exact slash_notMem_dotdot

theorem IsNormal.of_append {rooted : Bool} {later earlier : List Bytes}
    (h : IsNormal rooted (later ++ earlier)) : IsNormal rooted earlier := by
  induction later with
  | nil => exact h
  | cons segment later ih => exact ih h.2

theorem IsNormal.pushSegment {rooted : Bool} {done : List Bytes} (h : IsNormal rooted done)
    {segment : Bytes} (hsegment : slash ∉ segment) :
    IsNormal rooted (pushSegment rooted done segment) := by
  rcases segment_cases hsegment with hskip | rfl | hname
  · rwa [pushSegment_of_skip hskip]
  · cases done with
    | nil =>
        cases rooted with
        | true => exact trivial
        | false => exact ⟨.inr ⟨rfl, rfl, fun _ hnil => absurd hnil List.not_mem_nil⟩, trivial⟩
    | cons last rest =>
        rcases h.1 with hname | ⟨rfl, hrooted, hrest⟩
        · have hback : Path.pushSegment rooted (last :: rest) dotdot = rest := by
            simp [Path.pushSegment, hname.ne_dotdot]
          rw [hback]
          exact h.2
        · exact ⟨.inr ⟨rfl, hrooted, List.forall_mem_cons.mpr ⟨rfl, hrest⟩⟩, h⟩
  · rw [hname.pushSegment_eq]
    exact ⟨.inl hname, h⟩

theorem IsNormal.foldl_pushSegment {rooted : Bool} {done segments : List Bytes}
    (h : IsNormal rooted done) (hsegments : ∀ segment ∈ segments, slash ∉ segment) :
    IsNormal rooted (segments.foldl (Path.pushSegment rooted) done) := by
  induction segments generalizing done with
  | nil => exact h
  | cons segment rest ih =>
      obtain ⟨hsegment, hrest⟩ := List.forall_mem_cons.mp hsegments
      exact ih (h.pushSegment hsegment) hrest

theorem isNormal_cleanSegments (p : Bytes) : IsNormal (isRooted p) (cleanSegments p).reverse := by
  rw [cleanSegments, List.reverse_reverse]
  apply (isNormal_nil _).foldl_pushSegment
  exact fun _ => Bytes.notMem_of_mem_split

theorem IsNormal.pushSegment_eq {rooted : Bool} {segment : Bytes} {done : List Bytes}
    (h : IsNormal rooted (segment :: done)) :
    Path.pushSegment rooted done segment = segment :: done := by
  rcases h.1 with hname | ⟨rfl, rfl, hdone⟩
  · exact hname.pushSegment_eq rooted done
  · cases done with
    | nil => rfl
    | cons last rest =>
        obtain rfl := hdone last List.mem_cons_self
        rfl

theorem foldl_pushSegment_of_isNormal {rooted : Bool} {segments done : List Bytes}
    (h : IsNormal rooted (segments.reverse ++ done)) :
    segments.foldl (Path.pushSegment rooted) done = segments.reverse ++ done := by
  induction segments generalizing done with
  | nil => rfl
  | cons segment rest ih =>
      rw [List.reverse_cons, List.append_assoc, List.singleton_append] at h ⊢
      rw [List.foldl_cons, h.of_append.pushSegment_eq, ih h]

/-- The segments of a cleaned path are found again in it, apart from some that vanish. -/
theorem foldl_split_ofSegments {α : Type} (f : α → Bytes → α) (start : α)
    (hskip : ∀ a segment, segment = [] ∨ segment = dot → f a segment = a) (rooted : Bool)
    {segments : List Bytes} (h : ∀ segment ∈ segments, slash ∉ segment) :
    (Bytes.split slash (ofSegments rooted segments)).foldl f start = segments.foldl f start := by
  by_cases hne : segments = []
  · subst hne
    cases rooted with
    | true =>
        have hsplit : Bytes.split slash (ofSegments true []) = [[], []] := by decide
        simp [hsplit, hskip]
    | false =>
        have hsplit : Bytes.split slash (ofSegments false []) = [dot] := by decide
        rw [hsplit, List.foldl_cons, hskip _ _ (.inr rfl)]
  · cases rooted with
    | true =>
        have hsplit : Bytes.split slash (ofSegments true segments) = [] :: segments := by
          rw [ofSegments, if_pos rfl, Bytes.split_cons, if_pos rfl, Bytes.split_join hne h]
        rw [hsplit, List.foldl_cons, hskip _ _ (.inl rfl)]
    | false =>
        have hofSegments : ofSegments false segments = Bytes.join [slash] segments := by
          simp [ofSegments, hne]
        rw [hofSegments, Bytes.split_join hne h]

theorem isRooted_ofSegments_of_isNormal {rooted : Bool} {segments : List Bytes}
    (h : IsNormal rooted segments.reverse) : isRooted (ofSegments rooted segments) = rooted := by
  cases rooted with
  | true => rfl
  | false =>
      cases segments with
      | nil => decide
      | cons first rest =>
          have hfirst : IsName first ∨ first = dotdot := by
            rw [List.reverse_cons] at h
            exact h.of_append.1.imp_right And.left
          have hjoin : ∃ tail, Bytes.join [slash] (first :: rest) = first ++ tail := by
            cases rest with
            | nil => exact ⟨[], by simp [Bytes.join]⟩
            | cons next rest => exact ⟨_, rfl⟩
          obtain ⟨tail, htail⟩ := hjoin
          rw [ofSegments, if_neg Bool.false_ne_true, if_neg (List.cons_ne_nil _ _), htail]
          rcases hfirst with hname | rfl
          · obtain ⟨b, first, rfl⟩ := List.exists_cons_of_ne_nil hname.ne_nil
            have hb : b ≠ slash := fun hb => hname.slash_notMem (hb ▸ List.mem_cons_self)
            simp [isRooted, hb]
          · rfl

theorem isRooted_clean_eq (p : Bytes) : isRooted (clean p) = isRooted p :=
  isRooted_ofSegments_of_isNormal (isNormal_cleanSegments p)

theorem cleanSegments_ofSegments_of_isNormal {rooted : Bool} {segments : List Bytes}
    (h : IsNormal rooted segments.reverse) : cleanSegments (ofSegments rooted segments) = segments := by
  have hslash : ∀ segment ∈ segments, slash ∉ segment := by
    intro segment hsegment
    exact h.slash_notMem segment (List.mem_reverse.mpr hsegment)
  have hfold := foldl_split_ofSegments (pushSegment rooted) []
    (fun done _ hskip => pushSegment_of_skip hskip _ done) rooted hslash
  rw [cleanSegments, isRooted_ofSegments_of_isNormal h, hfold, foldl_pushSegment_of_isNormal]
  · rw [List.append_nil, List.reverse_reverse]
  · rwa [List.append_nil]

/-- The segments that cleaning leaves are those of the path made of them that do not vanish. -/
theorem filter_split_ofSegments {rooted : Bool} {segments : List Bytes}
    (h : IsNormal rooted segments.reverse) :
    (Bytes.split slash (ofSegments rooted segments)).filter
      (fun segment => segment ≠ [] ∧ segment ≠ dot) = segments := by
  by_cases hne : segments = []
  · subst hne
    cases rooted <;> decide
  · have hself : segments.filter (fun segment => segment ≠ [] ∧ segment ≠ dot) = segments := by
      rw [List.filter_eq_self]
      intro segment hsegment
      rcases h.isName_or_dotdot segment (List.mem_reverse.mpr hsegment) with hname | rfl
      · simp [hname.ne_nil, hname.ne_dot]
      · decide
    have hslash : ∀ segment ∈ segments, slash ∉ segment := by
      intro segment hsegment
      exact h.slash_notMem segment (List.mem_reverse.mpr hsegment)
    cases rooted with
    | true =>
        rw [ofSegments, if_pos rfl, Bytes.split_cons, if_pos rfl, Bytes.split_join hne hslash]
        exact hself
    | false =>
        rw [ofSegments, if_neg Bool.false_ne_true, if_neg hne, Bytes.split_join hne hslash]
        exact hself

theorem cleanSegments_clean (p : Bytes) : cleanSegments (clean p) = cleanSegments p :=
  cleanSegments_ofSegments_of_isNormal (isNormal_cleanSegments p)

theorem foldl_pushSegment_of_dotdot_notMem {segments : List Bytes} (h : dotdot ∉ segments)
    (rooted : Bool) (done : List Bytes) :
    segments.foldl (pushSegment rooted) done =
      (segments.filter fun segment => segment ≠ [] ∧ segment ≠ dot).reverse ++ done := by
  induction segments generalizing done with
  | nil => rfl
  | cons segment rest ih =>
      obtain ⟨hsegment, hrest⟩ := not_or.mp (mt List.mem_cons.mpr h)
      rw [List.foldl_cons, ih hrest]
      by_cases hskip : segment = [] ∨ segment = dot
      · rw [pushSegment_of_skip hskip, List.filter_cons_of_neg]
        simpa using fun hnil => hskip.resolve_left hnil
      · obtain ⟨hnil, hdot⟩ := not_or.mp hskip
        rw [List.filter_cons_of_pos (by simp [hnil, hdot])]
        simp [pushSegment, hnil, hdot, Ne.symm hsegment]

/-- Without `..` cleaning only takes segments away that vanish. -/
theorem cleanSegments_of_dotdot_notMem {p : Bytes} (h : dotdot ∉ Bytes.split slash p) :
    cleanSegments p = (Bytes.split slash p).filter fun segment => segment ≠ [] ∧ segment ≠ dot := by
  rw [cleanSegments, foldl_pushSegment_of_dotdot_notMem h, List.append_nil, List.reverse_reverse]

theorem mem_of_mem_pushSegment {rooted : Bool} {done : List Bytes} {segment other : Bytes}
    (h : other ∈ pushSegment rooted done segment) : other = segment ∨ other ∈ done := by
  unfold pushSegment at h
  split at h
  · exact .inr h
  · split at h
    next hup =>
      subst hup
      cases done with
      | nil =>
          cases rooted with
          | true => simp at h
          | false => exact .inl (by simpa using h)
      | cons last rest =>
          by_cases hlast : last = dotdot
          · simpa [hlast] using h
          · exact .inr (List.mem_cons_of_mem _ (by simpa [hlast] using h))
    next => exact List.mem_cons.mp h

theorem mem_of_mem_foldl_pushSegment {rooted : Bool} {segments done : List Bytes} {other : Bytes}
    (h : other ∈ segments.foldl (pushSegment rooted) done) : other ∈ segments ∨ other ∈ done := by
  induction segments generalizing done with
  | nil => exact .inr h
  | cons segment rest ih =>
      rcases ih h with hrest | hpushed
      · exact .inl (List.mem_cons_of_mem _ hrest)
      · rcases mem_of_mem_pushSegment hpushed with rfl | hdone
        · exact .inl List.mem_cons_self
        · exact .inr hdone

theorem mem_split_of_mem_cleanSegments {p segment : Bytes} (h : segment ∈ cleanSegments p) :
    segment ∈ Bytes.split slash p := by
  rw [cleanSegments, List.mem_reverse] at h
  exact (mem_of_mem_foldl_pushSegment h).resolve_right List.not_mem_nil

/-! ## Descending -/

theorem foldl_descend_of_isName {names : List Bytes} (h : ∀ name ∈ names, IsName name)
    (start : List Bytes) : names.foldl descend start = start ++ names := by
  induction names generalizing start with
  | nil => rw [List.foldl_nil, List.append_nil]
  | cons name rest ih =>
      obtain ⟨hname, hrest⟩ := List.forall_mem_cons.mp h
      rw [List.foldl_cons, hname.descend_eq, ih hrest, List.append_assoc, List.singleton_append]

theorem foldl_descend_pushSegment {rooted : Bool} {start done : List Bytes}
    (hstart : rooted = true → start = []) (hdone : IsNormal rooted done) {segment : Bytes}
    (hsegment : slash ∉ segment) :
    (pushSegment rooted done segment).reverse.foldl descend start =
      descend (done.reverse.foldl descend start) segment := by
  rcases segment_cases hsegment with hskip | rfl | hname
  · rw [pushSegment_of_skip hskip, descend_of_skip hskip]
  · cases done with
    | nil =>
        cases rooted with
        | true =>
            rw [hstart rfl]
            rfl
        | false => rfl
    | cons last rest =>
        rcases hdone.1 with hname | ⟨rfl, -, -⟩
        · have hback : pushSegment rooted (last :: rest) dotdot = rest := by
            simp [pushSegment, hname.ne_dotdot]
          rw [hback, List.reverse_cons, List.foldl_concat, hname.descend_eq, descend_dotdot,
            List.dropLast_concat]
        · have hpush : pushSegment rooted (dotdot :: rest) dotdot = dotdot :: dotdot :: rest := rfl
          rw [hpush, List.reverse_cons, List.foldl_concat]
  · rw [hname.pushSegment_eq, List.reverse_cons, List.foldl_concat]

theorem foldl_descend_foldl_pushSegment {rooted : Bool} {start done segments : List Bytes}
    (hstart : rooted = true → start = []) (hdone : IsNormal rooted done)
    (hsegments : ∀ segment ∈ segments, slash ∉ segment) :
    (segments.foldl (pushSegment rooted) done).reverse.foldl descend start =
      segments.foldl descend (done.reverse.foldl descend start) := by
  induction segments generalizing done with
  | nil => rfl
  | cons segment rest ih =>
      obtain ⟨hsegment, hrest⟩ := List.forall_mem_cons.mp hsegments
      rw [List.foldl_cons, ih (hdone.pushSegment hsegment) hrest,
        foldl_descend_pushSegment hstart hdone hsegment, List.foldl_cons]

/-- A path and its cleaned form lead to the same names. -/
theorem foldl_descend_cleanSegments {p : Bytes} {start : List Bytes}
    (hstart : isRooted p = true → start = []) :
    (cleanSegments p).foldl descend start = (Bytes.split slash p).foldl descend start := by
  rw [cleanSegments, foldl_descend_foldl_pushSegment hstart (isNormal_nil _)
    fun _ => Bytes.notMem_of_mem_split]
  rfl

theorem cleanSegments_eq_foldl_descend {p : Bytes} (h : isRooted p = true) :
    cleanSegments p = (Bytes.split slash p).foldl descend [] := by
  rw [← foldl_descend_cleanSegments fun _ => rfl,
    foldl_descend_of_isName (isName_of_mem_cleanSegments h), List.nil_append]

/-! ## Longer paths -/

theorem isRooted_append_slash {p : Bytes} (hp : p ≠ []) (rest : Bytes) :
    isRooted (p ++ slash :: rest) = isRooted p := by
  obtain ⟨b, p, rfl⟩ := List.exists_cons_of_ne_nil hp
  rfl

/-- Names are added to the segments of the path they are added to. -/
theorem cleanSegments_append_names {p : Bytes} (hp : p ≠ []) {names : List Bytes}
    (hne : names ≠ []) (h : ∀ name ∈ names, IsName name) :
    cleanSegments (p ++ slash :: Bytes.join [slash] names) = cleanSegments p ++ names := by
  rw [cleanSegments, isRooted_append_slash hp, Bytes.split_append_sep,
    Bytes.split_join hne fun name hname => (h name hname).slash_notMem, List.foldl_append,
    foldl_pushSegment_of_isName h, List.reverse_append, List.reverse_reverse, cleanSegments]

theorem cleanSegments_append_name {p name : Bytes} (hp : p ≠ []) (h : IsName name) :
    cleanSegments (p ++ slash :: name) = cleanSegments p ++ [name] := by
  have hnames := cleanSegments_append_names hp (List.cons_ne_nil name []) (by simpa using h)
  rwa [show Bytes.join [slash] [name] = name by simp [Bytes.join]] at hnames

/-- The names a path seen from a directory leads to are those of its absolute form. -/
theorem cleanSegments_absolute {cwd : Bytes} (hcwd : isRooted cwd = true) (p : Bytes) :
    cleanSegments (absolute cwd p) =
      (Bytes.split slash p).foldl descend (if isRooted p then [] else cleanSegments cwd) := by
  unfold absolute
  split
  next hp => rw [cleanSegments_clean, cleanSegments_eq_foldl_descend hp]
  next hp =>
    rw [cleanSegments_clean, cleanSegments_eq_foldl_descend (isRooted_append hcwd _),
      Bytes.split_append_sep, List.foldl_append, ← cleanSegments_eq_foldl_descend hcwd]

theorem ofSegments_cleanSegments_absolute {cwd : Bytes} (hcwd : isRooted cwd = true) (p : Bytes) :
    ofSegments true (cleanSegments (absolute cwd p)) = absolute cwd p := by
  have hclean : clean (absolute cwd p) = absolute cwd p := by
    have habsolute := absolute_absolute hcwd p
    rwa [absolute, if_pos (isRooted_absolute hcwd p)] at habsolute
  rwa [clean, isRooted_absolute hcwd] at hclean

/-! ## The last element -/

theorem lastElement_of_slash_notMem {name : Bytes} (h : slash ∉ name) : lastElement name = name := by
  have hall : ∀ b ∈ name.reverse, (b != slash) = true := by
    intro b hb
    exact bne_iff_ne.mpr fun heq => h (heq ▸ List.mem_reverse.mp hb)
  rw [lastElement, List.takeWhile_eq_self_iff.mpr hall, List.reverse_reverse]

theorem lastElement_append_slash {name : Bytes} (h : slash ∉ name) (p : Bytes) :
    lastElement (p ++ slash :: name) = name := by
  have hall : ∀ b ∈ name.reverse, (b != slash) = true := by
    intro b hb
    exact bne_iff_ne.mpr fun heq => h (heq ▸ List.mem_reverse.mp hb)
  rw [lastElement, List.reverse_append, List.reverse_cons, List.append_assoc,
    List.takeWhile_append_of_pos hall]
  simp

theorem exists_join_concat (segments : List Bytes) (name : Bytes) :
    Bytes.join [slash] (segments ++ [name]) = name ∨
      ∃ front, Bytes.join [slash] (segments ++ [name]) = front ++ slash :: name := by
  induction segments with
  | nil => exact .inl (by simp [Bytes.join])
  | cons first rest ih =>
      rw [List.cons_append, Bytes.join_cons first (by simp)]
      rcases ih with hlast | ⟨front, hfront⟩
      · exact .inr ⟨first, by rw [hlast]⟩
      · exact .inr ⟨first ++ slash :: front, by simp [hfront]⟩

theorem exists_ofSegments_concat (rooted : Bool) (segments : List Bytes) (name : Bytes) :
    ofSegments rooted (segments ++ [name]) = name ∨
      ∃ front, ofSegments rooted (segments ++ [name]) = front ++ slash :: name := by
  cases rooted with
  | true =>
      rw [ofSegments, if_pos rfl]
      rcases exists_join_concat segments name with hlast | ⟨front, hfront⟩
      · exact .inr ⟨[], by rw [hlast, List.nil_append]⟩
      · exact .inr ⟨slash :: front, by rw [hfront, List.cons_append]⟩
  | false =>
      rw [ofSegments, if_neg Bool.false_ne_true, if_neg (by simp)]
      exact exists_join_concat segments name

/-- A path ends with the last of its names, and has its extension. -/
theorem ext_ofSegments_concat (rooted : Bool) (segments : List Bytes) {name : Bytes}
    (h : IsName name) : ext (ofSegments rooted (segments ++ [name])) = ext name := by
  have hlast : lastElement (ofSegments rooted (segments ++ [name])) = lastElement name := by
    rw [lastElement_of_slash_notMem h.slash_notMem]
    rcases exists_ofSegments_concat rooted segments name with heq | ⟨front, heq⟩
    · rw [heq, lastElement_of_slash_notMem h.slash_notMem]
    · rw [heq, lastElement_append_slash h.slash_notMem]
  rw [ext, ext, hlast]

theorem upToLastSlash_append_slash {name : Bytes} (h : slash ∉ name) (p : Bytes) :
    upToLastSlash (p ++ slash :: name) = p ++ [slash] := by
  have hall : ∀ b ∈ name.reverse, (b != slash) = true := by
    intro b hb
    exact bne_iff_ne.mpr fun heq => h (heq ▸ List.mem_reverse.mp hb)
  rw [upToLastSlash, List.reverse_append, List.reverse_cons, List.append_assoc,
    List.dropWhile_append_of_pos hall]
  simp

/-- The names in front of the last slash of a path are all but the one behind it. -/
theorem cleanSegments_append_slash_name {name : Bytes} (h : IsName name) (p : Bytes) :
    cleanSegments (p ++ slash :: name) = cleanSegments (p ++ [slash]) ++ [name] := by
  have hrooted : isRooted (p ++ [slash]) = isRooted (p ++ slash :: name) := by cases p <;> rfl
  rw [cleanSegments, cleanSegments, hrooted, Bytes.split_append_sep, Bytes.split_append_sep,
    Bytes.split_of_notMem h.slash_notMem, List.foldl_append, List.foldl_append]
  change (pushSegment _ _ name).reverse = List.reverse _ ++ [name]
  rw [h.pushSegment_eq, List.reverse_cons]
  rfl

/-- The directory part of a path has all of its names but the last. -/
theorem dir_ofSegments_concat {names : List Bytes} {name : Bytes}
    (h : ∀ other ∈ names ++ [name], IsName other) :
    dir (ofSegments true (names ++ [name])) = ofSegments true names := by
  have hname : IsName name := h name (by simp)
  have hsegments := cleanSegments_ofSegments h
  have hrooted := isRooted_ofSegments (names ++ [name])
  rcases exists_ofSegments_concat true names name with heq | ⟨front, heq⟩
  · rw [heq] at hrooted
    have hslash : name.head? = some slash := by simpa [isRooted] using hrooted
    exact absurd (List.mem_of_head? hslash) hname.slash_notMem
  · rw [heq] at hrooted hsegments ⊢
    rw [cleanSegments_append_slash_name hname, List.append_cancel_right_eq] at hsegments
    have hfront : isRooted (front ++ [slash]) = true := by
      cases front with
      | nil => rfl
      | cons b front => exact hrooted
    rw [dir, upToLastSlash_append_slash hname.slash_notMem, clean, hsegments, hfront]

theorem ofSegments_inj {names others : List Bytes} (h : ∀ name ∈ names, IsName name)
    (hothers : ∀ name ∈ others, IsName name) :
    ofSegments true names = ofSegments true others ↔ names = others := by
  refine ⟨fun heq => ?_, congrArg _⟩
  rw [← cleanSegments_ofSegments h, heq, cleanSegments_ofSegments hothers]

/-- Whether a name has an extension: what stands in it from its last dot on, or nothing if there is
no dot. -/
inductive HasExt : Bytes → Bytes → Prop where
  | dotted (stem : Bytes) {suffix : Bytes} (h : 0x2E ∉ suffix) :
      HasExt (stem ++ 0x2E :: suffix) (0x2E :: suffix)
  | plain {name : Bytes} (h : 0x2E ∉ name) : HasExt name []

theorem ext_eq_iff_hasExt {name e : Bytes} (h : slash ∉ name) : ext name = e ↔ HasExt name e := by
  rw [ext, lastElement_of_slash_notMem h]
  constructor
  · rintro rfl
    split
    next stem suffix hcut =>
      obtain ⟨rfl, hsuffix⟩ := Bytes.cutLast?_eq_some_iff.mp hcut
      exact .dotted stem hsuffix
    next hcut => exact .plain (Bytes.cutLast?_eq_none_iff.mp hcut)
  · intro hext
    cases hext with
    | dotted stem hsuffix => rw [Bytes.cutLast?_eq_some_iff.mpr ⟨rfl, hsuffix⟩]
    | plain hname => rw [Bytes.cutLast?_eq_none_iff.mpr hname]

end DefinitionFiles.Path
