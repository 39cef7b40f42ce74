import DefinitionFiles.Program
import DefinitionFiles.Proofs.Settings

/-!
# Setting up a run

A run takes its settings from the defaults, a file, the environment and its flags, each of which
wins over those before it. It is set up exactly if what these make of the settings can be used,
without the flags and with them. The logger is then built from settings that were checked, and this
cannot fail.
-/

namespace DefinitionFiles

/-- The value that counts of those that a flag, the environment and a file give to a setting. An
empty value in the environment is none. -/
def Settings.foremost (flag? : Option Bytes) (environment file : Bytes) : Bytes :=
  match flag? with
  | some value => value
  | none => if environment ≠ [] then environment else file

namespace Program

/-- Settings as the flags change them. -/
def flagged (o : Command.Overrides) (s : Settings) : Settings :=
  { s with
    logLevel := o.logLevel?.getD s.logLevel
    logFormat := o.logFormat?.getD s.logFormat }

/-- The settings of a file with the level and the format of the log that count. -/
def effective (o : Command.Overrides) (e : Settings.Environment) (file : Settings) : Settings :=
  { file with
    logLevel := Settings.foremost o.logLevel? e.logLevel file.logLevel
    logFormat := Settings.foremost o.logFormat? e.logFormat file.logFormat }

theorem flagged_under (o : Command.Overrides) (e : Settings.Environment) (file : Settings) :
    flagged o (file.under e) = effective o e file := by
  have hforemost : ∀ (flag? : Option Bytes) (environment value : Bytes),
      flag?.getD (if environment = [] then value else environment) =
        Settings.foremost flag? environment value := by
    intro flag? environment value
    cases flag? <;> simp [Settings.foremost]
  simp only [flagged, effective, Settings.under, hforemost]

variable {decode : Bytes → Settings → Except Bytes Settings} {d : Disk} {e : Settings.Environment}
  {o : Command.Overrides}

theorem settingsBy_of_load {loaded : Settings}
    (h : Settings.loadBy decode d e ((o.file? <|> e.file?).getD []) = .ok loaded) :
    settingsBy decode d e o = match (flagged o loaded).validate with
      | .ok settings => .ok settings
      | .error cause => .error (.invalid cause) := by
  rw [settingsBy, h]
  rfl

theorem settingsBy_eq_ok_iff_flagged {s : Settings} :
    settingsBy decode d e o = .ok s ↔
      ∃ loaded, Settings.loadBy decode d e ((o.file? <|> e.file?).getD []) = .ok loaded ∧
        s = flagged o loaded ∧ s.IsUsable := by
  have hvalidate : ∀ loaded : Settings,
      (flagged o loaded).validate = .ok s ↔ s = flagged o loaded ∧ s.IsUsable := by
    intro loaded
    rw [Settings.validate_eq_ok_iff]
    exact and_congr_right fun hs => by rw [hs]
  cases hload : Settings.loadBy decode d e ((o.file? <|> e.file?).getD []) with
  | error cause =>
      refine iff_of_false ?_ (by rintro ⟨_, ⟨⟩, -⟩)
      rw [settingsBy, hload]
      exact nofun
  | ok loaded =>
      have hok : settingsBy decode d e o = .ok s ↔ (flagged o loaded).validate = .ok s := by
        rw [settingsBy_of_load hload]
        cases (flagged o loaded).validate <;> simp
      rw [hok, hvalidate]
      exact ⟨fun h => ⟨loaded, rfl, h⟩, by rintro ⟨_, ⟨⟩, h⟩; exact h⟩

/-- Settings are found exactly if those of the file can be used with the environment alone and with
the flags too. -/
theorem settingsBy_eq_ok_iff {s : Settings} :
    settingsBy decode d e o = .ok s ↔
      ∃ file, Settings.Provides decode d ((o.file? <|> e.file?).getD []) file ∧
        (file.under e).IsUsable ∧ s = effective o e file ∧ s.IsUsable := by
  rw [settingsBy_eq_ok_iff_flagged]
  constructor
  · rintro ⟨loaded, hload, hs, husable⟩
    obtain ⟨file, hprovides, rfl, hloaded⟩ := Settings.loadBy_eq_ok_iff.mp hload
    exact ⟨file, hprovides, hloaded, hs.trans (flagged_under o e file), husable⟩
  · rintro ⟨file, hprovides, hloaded, hs, husable⟩
    exact ⟨file.under e, Settings.loadBy_eq_ok_iff.mpr ⟨file, hprovides, rfl, hloaded⟩,
      hs.trans (flagged_under o e file).symm, husable⟩

theorem isUsable_of_settingsBy {s : Settings} (h : settingsBy decode d e o = .ok s) :
    s.IsUsable := by
  obtain ⟨-, -, -, -, husable⟩ := settingsBy_eq_ok_iff.mp h
  exact husable

/-! ## The logger -/

/-- Whoever has settings has a logger for them. -/
theorem exists_setupBy {s : Settings} (h : settingsBy decode d e o = .ok s) :
    ∃ logger, setupBy decode d e o = .ok (s, logger) ∧ logger.Serves s := by
  obtain ⟨logger, hlogger, hserves⟩ := Log.Logger.exists_ofNames (isUsable_of_settingsBy h)
  exact ⟨logger, by rw [setupBy, h]; simp only [hlogger], hserves⟩

theorem setupBy_eq_ok_iff {s : Settings} {logger : Log.Logger} :
    setupBy decode d e o = .ok (s, logger) ↔
      settingsBy decode d e o = .ok s ∧ logger.Serves s := by
  cases h : settingsBy decode d e o with
  | error cause =>
      refine iff_of_false ?_ (by rintro ⟨⟨⟩, -⟩)
      rw [setupBy, h]
      exact nofun
  | ok settings =>
      obtain ⟨found, hfound, hserves⟩ := exists_setupBy h
      rw [hfound, Except.ok.injEq, Except.ok.injEq, Prod.mk.injEq]
      refine and_congr_right ?_
      rintro rfl
      exact ⟨fun heq => heq ▸ hserves, hserves.eq⟩

theorem setupBy_ne_badLog (cause : Log.Threshold.Unknown) :
    setupBy decode d e o ≠ .error (.badLog cause) := by
  cases h : settingsBy decode d e o with
  | error cause =>
      rw [setupBy, h]
      exact nofun
  | ok settings =>
      obtain ⟨logger, hsetup, -⟩ := exists_setupBy h
      rw [hsetup]
      exact nofun

/-- A run is set up exactly if the settings of its file, or the defaults, can be used both with the
environment alone and with the flags. Level and format of the log are then those of the flags, the
environment or the file, in this order, and every other setting is that of the file. The logger is
the one these settings ask for. It can always be built: a log takes every name of a level that
settings may hold. -/
theorem setupBy_precedence (decode : Bytes → Settings → Except Bytes Settings) (d : Disk)
    (e : Settings.Environment) (o : Command.Overrides) :
    (∀ settings logger, setupBy decode d e o = .ok (settings, logger) ↔
      ∃ file, Settings.Provides decode d ((o.file? <|> e.file?).getD []) file ∧
        (file.under e).IsUsable ∧
        settings = { file with
          logLevel := Settings.foremost o.logLevel? e.logLevel file.logLevel
          logFormat := Settings.foremost o.logFormat? e.logFormat file.logFormat } ∧
        settings.IsUsable ∧ logger.Serves settings) ∧
    (∀ cause, setupBy decode d e o ≠ .error (.badLog cause)) ∧
    (∀ s t : Settings, s.validate = .ok t →
      ∃ logger, Log.Logger.ofNames t.logLevel t.logFormat = .ok logger ∧ logger.Serves t) ∧
    ∀ name, (∃ t, Log.Threshold.ofName name = .ok t) ↔
      name = [] ∨ lower name ∈ Settings.logLevels := by
  refine ⟨fun settings logger => ?_, setupBy_ne_badLog, fun s t h => ?_,
    fun name => Log.Threshold.exists_ofName_iff⟩
  · rw [setupBy_eq_ok_iff, settingsBy_eq_ok_iff]
    constructor
    · rintro ⟨⟨file, hprovides, hloaded, hs, husable⟩, hserves⟩
      exact ⟨file, hprovides, hloaded, hs, husable, hserves⟩
    · rintro ⟨file, hprovides, hloaded, hs, husable, hserves⟩
      exact ⟨⟨file, hprovides, hloaded, hs, husable⟩, hserves⟩
  · obtain ⟨rfl, husable⟩ := Settings.validate_eq_ok_iff.mp h
    exact Log.Logger.exists_ofNames husable

/-- A file gives level and format, the environment another level, and a flag another format. -/
theorem setupBy_precedence_layers :
    let text := utf8 "log:\n  level: warn\n  format: json\n"
    let d : Disk := { inodes := [([utf8 "c.yaml"], .file text)] }
    let e : Settings.Environment := { logLevel := utf8 "Error", file? := some (utf8 "/c.yaml") }
    let o : Command.Overrides := { logFormat? := some (utf8 "console") }
    setupBy Settings.decode d e o =
        .ok ({ logLevel := utf8 "Error", logFormat := utf8 "console" },
          { threshold := .level .error, format := .console }) ∧
      ∀ cause, setupBy Settings.decode d e o ≠ .error (.badLog cause) := by
  intro text d e o
  obtain ⟨hsetup, hlog, -⟩ := setupBy_precedence Settings.decode d e o
  refine ⟨(hsetup _ _).mpr ?_, hlog⟩
  have hread : d.read (utf8 "/c.yaml") = .ok text := by with_unfolding_all rfl
  have hread? : Settings.decode? text {} =
      some { logLevel := utf8 "warn", logFormat := utf8 "json" } := by
    decide +kernel
  have hdecode : Settings.decode text {} =
      .ok { logLevel := utf8 "warn", logFormat := utf8 "json" } := by
    rw [Settings.decode, hread?]
  refine ⟨_, .file (by decide) hread hdecode, ?_, rfl, ?_, ?_⟩
  · exact Settings.fault?_eq_none_iff.mp (by decide +kernel)
  · exact Settings.fault?_eq_none_iff.mp (by decide +kernel)
  · exact ⟨by decide +kernel, by decide +kernel⟩

end Program

end DefinitionFiles
