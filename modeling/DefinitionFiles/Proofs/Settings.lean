import DefinitionFiles.Log
import DefinitionFiles.Settings.File

/-!
# Usable settings

Settings are accepted exactly if every one of them can be used. Their log level is then one of the
levels a log can have, so that there is a logger for them.
-/

namespace DefinitionFiles

namespace Settings

/-- Whether every setting can be used. -/
structure IsUsable (s : Settings) : Prop where
  source_ne_nil : s.source ≠ []
  extensions_ne_nil : s.extensions ≠ []
  head?_extension : ∀ e ∈ s.extensions, e.head? = some 0x2E
  historyLimit_nonneg : 0 ≤ s.historyLimit
  concurrency_nonneg : 0 ≤ s.concurrency
  /-- The log level has one of the known names in some letter case. -/
  logLevel_known : ∃ name ∈ ["debug", "info", "warn", "error", "disabled"],
    lower s.logLevel = utf8 name
  logFormat_known : s.logFormat = utf8 "console" ∨ s.logFormat = utf8 "json"
  label_ne_nil : ∀ c ∈ s.completions, c.label ≠ []

theorem fault?_eq_none_iff {s : Settings} : s.fault? = none ↔ s.IsUsable := by
  have hlevel : logLevels.contains (lower s.logLevel) = true ↔
      ∃ name ∈ ["debug", "info", "warn", "error", "disabled"], lower s.logLevel = utf8 name := by
    simp [logLevels]
  have hformat : logFormats.contains s.logFormat = true ↔
      s.logFormat = utf8 "console" ∨ s.logFormat = utf8 "json" := by
    simp [logFormats]
  have hdotted : (s.extensions.find? fun e => e.head? != some 0x2E) = none ↔
      ∀ e ∈ s.extensions, e.head? = some 0x2E := by
    simp
  have hlabels : (s.completions.findIdx? fun c => c.label = []) = none ↔
      ∀ c ∈ s.completions, c.label ≠ [] := by
    simp
  unfold fault?
  constructor
  · intro h
    split at h
    · cases h
    next hsource =>
    split at h
    · cases h
    next hextensions =>
    split at h
    · cases h
    next hfind =>
    split at h
    · cases h
    next hlimit =>
    split at h
    · cases h
    next hconcurrency =>
    split at h
    · cases h
    next hknown =>
    split at h
    · cases h
    next hwritten =>
    rw [Bool.not_eq_true', Bool.not_eq_false] at hknown hwritten
    exact ⟨hsource, hextensions, hdotted.mp hfind, Int.not_lt.mp hlimit,
      Int.not_lt.mp hconcurrency, hlevel.mp hknown, hformat.mp hwritten,
      hlabels.mp (Option.map_eq_none_iff.mp h)⟩
  · intro h
    rw [if_neg h.source_ne_nil, if_neg h.extensions_ne_nil, hdotted.mpr h.head?_extension]
    simp only
    rw [if_neg (Int.not_lt.mpr h.historyLimit_nonneg), if_neg (Int.not_lt.mpr h.concurrency_nonneg),
      hlevel.mpr h.logLevel_known, hformat.mpr h.logFormat_known, hlabels.mpr h.label_ne_nil]
    rfl

theorem validate_eq_ok_iff {s t : Settings} : s.validate = .ok t ↔ t = s ∧ s.IsUsable := by
  rw [← fault?_eq_none_iff, validate]
  cases s.fault? with
  | some e => simp
  | none => simp [eq_comm]

/-! ## Settings from files -/

/-- Settings as a file gives them over the defaults, or the defaults themselves. -/
inductive Provides (decode : Bytes → Settings → Except Bytes Settings) (d : Disk) :
    (path : Bytes) → Settings → Prop where
  | defaults : Provides decode d [] {}
  | file {path text : Bytes} {settings : Settings} (hpath : path ≠ [])
      (hread : d.read path = .ok text) (hdecode : decode text {} = .ok settings) :
      Provides decode d path settings

section

variable {decode : Bytes → Settings → Except Bytes Settings} {d : Disk} {e : Environment}
  {path : Bytes} {s : Settings}

theorem loadBy_of_provides {file : Settings} (h : Provides decode d path file) :
    loadBy decode d e path = .ok s ↔ s = file.under e ∧ (file.under e).IsUsable := by
  rw [← validate_eq_ok_iff]
  cases h with
  | defaults =>
      simp only [loadBy, if_true, bind, Except.bind]
      cases (under e {}).validate <;> simp
  | file hpath hread hdecode =>
      simp only [loadBy, hpath, if_false, hread, hdecode, bind, Except.bind]
      cases (file.under e).validate <;> simp

theorem exists_provides_of_loadBy (h : loadBy decode d e path = .ok s) :
    ∃ file, Provides decode d path file := by
  by_cases hpath : path = []
  · exact ⟨{}, hpath ▸ .defaults⟩
  · rw [loadBy, if_neg hpath] at h
    cases hread : d.read path with
    | error cause =>
        rw [hread] at h
        cases h
    | ok text =>
        rw [hread] at h
        cases hdecode : decode text {} with
        | error reason =>
            simp only [hdecode] at h
            cases h
        | ok file => exact ⟨file, .file hpath hread hdecode⟩

/-- Settings are loaded exactly if a file, or the defaults, gives settings that can be used under
the environment. -/
theorem loadBy_eq_ok_iff :
    loadBy decode d e path = .ok s ↔
      ∃ file, Provides decode d path file ∧ s = file.under e ∧ (file.under e).IsUsable := by
  constructor
  · intro h
    obtain ⟨file, hprovides⟩ := exists_provides_of_loadBy h
    exact ⟨file, hprovides, (loadBy_of_provides hprovides).mp h⟩
  · rintro ⟨file, hprovides, h⟩
    exact (loadBy_of_provides hprovides).mpr h

end

end Settings

/-! ## Loggers -/

namespace Log

namespace Threshold

theorem mem_all (t : Threshold) : t ∈ all := by
  cases t with
  | disabled => decide
  | level least => cases least <;> decide

theorem eq_of_name_eq {t u : Threshold} (h : utf8 t.name = utf8 u.name) : t = u := by
  have hall : ∀ t ∈ all, ∀ u ∈ all, utf8 t.name = utf8 u.name → t = u := by decide +kernel
  exact hall t (mem_all t) u (mem_all u) h

theorem named?_eq_some_iff {name : Bytes} {t : Threshold} :
    named? name = some t ↔ lower name = utf8 t.name := by
  constructor
  · intro h
    simpa using List.find?_some h
  · intro h
    cases hfound : named? name with
    | none => exact absurd h (by simpa using List.find?_eq_none.mp hfound t (mem_all t))
    | some u =>
        have hname : lower name = utf8 u.name := by simpa using List.find?_some hfound
        rw [eq_of_name_eq (hname.symm.trans h)]

theorem ofName_eq_ok_iff {name : Bytes} (h : name ≠ []) {t : Threshold} :
    ofName name = .ok t ↔ lower name = utf8 t.name := by
  rw [← named?_eq_some_iff, ofName, if_neg h]
  cases named? name <;> simp

/-- A log takes the names that settings may hold, and the empty one beside them. -/
theorem exists_ofName_iff {name : Bytes} :
    (∃ t, ofName name = .ok t) ↔ name = [] ∨ lower name ∈ Settings.logLevels := by
  by_cases hempty : name = []
  · simp [ofName, hempty]
  · have hnames : Settings.logLevels = all.map fun t => utf8 t.name := rfl
    simp [hempty, ofName_eq_ok_iff hempty, hnames, mem_all, eq_comm]

end Threshold

theorem Format.ofName_eq_json_iff {name : Bytes} : ofName name = .json ↔ name = utf8 "json" := by
  simp [ofName]

namespace Logger

/-- Whether a logger is the one that settings ask for. -/
structure Serves (l : Logger) (s : Settings) : Prop where
  name_threshold : utf8 l.threshold.name = lower s.logLevel
  format_eq_json_iff : l.format = .json ↔ s.logFormat = utf8 "json"

theorem Serves.eq {l l' : Logger} {s : Settings} (h : l.Serves s) (h' : l'.Serves s) : l = l' := by
  obtain ⟨threshold, format⟩ := l
  obtain ⟨threshold', format'⟩ := l'
  have hthreshold : threshold = threshold' :=
    Threshold.eq_of_name_eq (h.name_threshold.trans h'.name_threshold.symm)
  have hformat : format = .json ↔ format' = .json :=
    h.format_eq_json_iff.trans h'.format_eq_json_iff.symm
  subst hthreshold
  cases format <;> cases format' <;> simp at hformat ⊢

theorem exists_ofNames {s : Settings} (h : s.IsUsable) :
    ∃ l, ofNames s.logLevel s.logFormat = .ok l ∧ l.Serves s := by
  obtain ⟨name, hname, hlevel⟩ := h.logLevel_known
  have hne : s.logLevel ≠ [] := by
    intro hempty
    have hnone : ∀ name ∈ ["debug", "info", "warn", "error", "disabled"],
        lower [] ≠ utf8 name := by
      decide +kernel
    exact hnone name hname (hempty ▸ hlevel)
  have hknown : lower s.logLevel ∈ Settings.logLevels := by
    rw [hlevel]
    exact List.mem_map_of_mem hname
  obtain ⟨t, ht⟩ := Threshold.exists_ofName_iff.mpr (.inr hknown)
  refine ⟨{ threshold := t, format := .ofName s.logFormat }, by rw [ofNames, ht], ?_⟩
  exact ⟨((Threshold.ofName_eq_ok_iff hne).mp ht).symm, Format.ofName_eq_json_iff⟩

end Logger

end Log

end DefinitionFiles
