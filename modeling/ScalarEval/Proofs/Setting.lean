import Mathlib
import ScalarEval.Proofs.Options

/-! Settings of the console level from outside. A setting decides which records the console shows
and nothing else, with two exceptions: under names that are found where a level is looked up, and
are none, no command is run, unless a flag sets the level. -/
namespace ScalarEval.Command

open Text

/-- The name under which something other than a level is found. -/
def NotALevel.name : NotALevel → String
  | basicFormat => "BASIC_FORMAT"
  | styles => "_STYLES"

/-- In capitals the setting is found where a level is looked up, and is none. -/
def NamesNoLevel (setting : String) : Prop :=
  ∃ n : NotALevel, capitalize setting = n.name

namespace Level

/-- The names of levels. Two levels have a second name. -/
def names : List String :=
  ["CRITICAL", "FATAL", "ERROR", "WARNING", "WARN", "INFO", "DEBUG", "NOTSET"]

variable {setting : String}

theorem ofSetting_of_name {n : NotALevel} (h : capitalize setting = n.name) :
    ofSetting setting = .error n := by
  unfold ofSetting
  rw [h]
  cases n <;> rfl

theorem exists_ofSetting_eq_ok (h : ¬ NamesNoLevel setting) : ∃ l, ofSetting setting = .ok l := by
  unfold ofSetting
  split
  case h_9 hname => exact absurd ⟨.basicFormat, hname⟩ h
  case h_10 hname => exact absurd ⟨.styles, hname⟩ h
  all_goals exact ⟨_, rfl⟩

theorem ofSetting_eq_warning (hname : capitalize setting ∉ names) (h : ¬ NamesNoLevel setting) :
    ofSetting setting = .ok .warning := by
  unfold ofSetting
  split
  case h_9 hn => exact absurd ⟨.basicFormat, hn⟩ h
  case h_10 hn => exact absurd ⟨.styles, hn⟩ h
  case h_11 => rfl
  all_goals
    next hn =>
    refine absurd hname ?_
    rw [hn]
    decide

end Level

theorem perform_eq_of_level {s : Settings} {environment : Option String} {level : Level}
    (h : s.level environment = .ok level) (c : Command) :
    perform s environment c = ⟨ending c.evaluate.outcome,
      if level.showsDebug then records c else [], s.logFile.map (·, records c)⟩ := by
  unfold perform
  rw [h]
  have hdebug : Level.debug.showsDebug = true := rfl
  -- A log file has the log itself let every record through; without one its level is the console's.
  cases hfile : s.logFile with
  | none => simp [Settings.logging, Logging.handled, hfile, records]
  | some path => simp [Settings.logging, Logging.handled, hfile, hdebug, records]

/-- Without a level no command is run, and no log file is made. -/
theorem perform_eq_of_error {s : Settings} {environment : Option String} {n : NotALevel}
    (h : s.level environment = .error n) (c : Command) :
    perform s environment c = ⟨.notALevel n, [], none⟩ := by
  unfold perform
  rw [h]

theorem ending_ne_notALevel (x : Except Failure String) (n : NotALevel) :
    ending x ≠ .notALevel n := by
  unfold ending
  split <;> simp

section
variable {setting : String} {s : Settings} {c : Command}

/-- A flag is preferred to any setting. -/
theorem level_of_flag (h : s.quiet = true ∨ s.verbose = true) (environment : Option String) :
    s.level environment = s.level none := by
  unfold Settings.level
  rcases h with h | h
  · rw [if_pos h, if_pos h]
  · rw [if_pos h, if_pos h]

theorem level_of_not_flag (h : ¬ (s.quiet = true ∨ s.verbose = true)) (setting : String) :
    s.level (some setting) = Level.ofSetting setting := by
  obtain ⟨hquiet, hverbose⟩ := not_or.mp h
  unfold Settings.level
  rw [if_neg hquiet, if_neg hverbose]

theorem exists_level_none (s : Settings) : ∃ level, s.level none = .ok level := by
  unfold Settings.level
  split_ifs <;> exact ⟨_, rfl⟩

/-- Two levels leave all of a run as it is, except what the console shows of its records. -/
theorem perform_congr {environment environment' : Option String} {level level' : Level}
    (h : s.level environment = .ok level) (h' : s.level environment' = .ok level') (c : Command) :
    (perform s environment c).ending = (perform s environment' c).ending ∧
      (perform s environment c).log = (perform s environment' c).log := by
  rw [perform_eq_of_level h, perform_eq_of_level h']
  exact ⟨rfl, rfl⟩

theorem exists_level_iff :
    (∃ level, s.level (some setting) = .ok level) ↔
      s.quiet = true ∨ s.verbose = true ∨ ¬ NamesNoLevel setting := by
  rw [← or_assoc]
  by_cases hflag : s.quiet = true ∨ s.verbose = true
  · rw [level_of_flag hflag]
    exact iff_of_true (exists_level_none s) (.inl hflag)
  · rw [level_of_not_flag hflag, or_iff_right hflag]
    refine ⟨?_, Level.exists_ofSetting_eq_ok⟩
    rintro ⟨level, hlevel⟩ ⟨n, hn⟩
    rw [Level.ofSetting_of_name hn] at hlevel
    cases hlevel

end

theorem report_eq_perform {arguments : List String} {s : Settings} {c : Command}
    (h : request arguments = .run s c) (environment : Option String) :
    report environment arguments = perform s environment c := by
  unfold report
  rw [h]

/-- A setting that names no level changes how a command ends, unless a flag sets the level. All
others leave the ending and the log file as they are without a setting, and those that name nothing
leave what `WARNING` does. -/
theorem setting_harmless_iff {arguments : List String} {s : Settings} {c : Command}
    (h : request arguments = .run s c) (setting : String) :
    let r := report (some setting) arguments
    let unset := report none arguments
    (r.ending = unset.ending ↔ s.quiet = true ∨ s.verbose = true ∨ ¬ NamesNoLevel setting) ∧
      (r.ending = unset.ending → r.log = unset.log) ∧
      (r.ending ≠ unset.ending → ∃ n, r = ⟨.notALevel n, [], none⟩) ∧
      (s.quiet = true ∨ s.verbose = true → r = unset) ∧
      (capitalize setting ∉ Level.names → r.ending = unset.ending →
        r = report (some "WARNING") arguments) := by
  simp only [report_eq_perform h]
  obtain ⟨level₀, hlevel₀⟩ := exists_level_none s
  have hiff : (perform s (some setting) c).ending = (perform s none c).ending ↔
      ∃ level, s.level (some setting) = .ok level := by
    refine ⟨fun he => ?_, fun ⟨level, hlevel⟩ => (perform_congr hlevel hlevel₀ c).1⟩
    cases hlevel : s.level (some setting) with
    | ok level => exact ⟨level, rfl⟩
    | error n =>
      rw [perform_eq_of_error hlevel, perform_eq_of_level hlevel₀] at he
      exact absurd he.symm (ending_ne_notALevel _ n)
  refine ⟨hiff.trans exists_level_iff, fun he => ?_, fun he => ?_, fun hflag => ?_,
    fun hname he => ?_⟩
  · obtain ⟨level, hlevel⟩ := hiff.mp he
    exact (perform_congr hlevel hlevel₀ c).2
  · cases hlevel : s.level (some setting) with
    | ok level => exact absurd (hiff.mpr ⟨level, hlevel⟩) he
    | error n => exact ⟨n, perform_eq_of_error hlevel c⟩
  · unfold perform
    rw [level_of_flag hflag]
  · have hlevel : s.level (some setting) = s.level (some "WARNING") := by
      by_cases hflag : s.quiet = true ∨ s.verbose = true
      · rw [level_of_flag hflag, level_of_flag hflag (some "WARNING")]
      · have hnot : ¬ NamesNoLevel setting :=
          (or_iff_right hflag).mp (or_assoc.mpr (exists_level_iff.mp (hiff.mp he)))
        rw [level_of_not_flag hflag, level_of_not_flag hflag, Level.ofSetting_eq_warning hname hnot]
        rfl
    unfold perform
    rw [hlevel]

/-- In capitals a long s is an S, so the setting is found as a table of formats. It is passed over
where a flag keeps the console quiet. -/
theorem setting_harmless_iff_styles :
    request ["-q", "un", "not", "u8", "0"] = .run ⟨false, true, none⟩ (.unary .not .u8 "0") ∧
      NamesNoLevel "_ſtyles" ∧
      report (some "_ſtyles") ["-q", "un", "not", "u8", "0"] =
        report none ["-q", "un", "not", "u8", "0"] ∧
      request ["un", "not", "u8", "0"] = .run .initial (.unary .not .u8 "0") ∧
      (report (some "_ſtyles") ["un", "not", "u8", "0"]).ending ≠
        (report none ["un", "not", "u8", "0"]).ending := by
  have hstyles : NamesNoLevel "_ſtyles" := ⟨.styles, by decide +kernel⟩
  have hquiet : request ["-q", "un", "not", "u8", "0"] =
      .run ⟨false, true, none⟩ (.unary .not .u8 "0") := by decide +kernel
  have hrun : request ["un", "not", "u8", "0"] = .run .initial (.unary .not .u8 "0") := by
    decide +kernel
  refine ⟨hquiet, hstyles, (setting_harmless_iff hquiet "_ſtyles").2.2.2.1 (.inl rfl), hrun, ?_⟩
  rw [ne_eq, (setting_harmless_iff hrun "_ſtyles").1]
  rintro (hflag | hflag | hnot)
  · cases hflag
  · cases hflag
  · exact hnot hstyles

/-- A command that ends with status 0 without a setting is not run under the name of the default
format. -/
theorem setting_basic_format :
    (report none ["un", "not", "u8", "0"]).ending = .exit 0 "255u8\n" "" ∧
      (report (some "BASIC_FORMAT") ["un", "not", "u8", "0"]).ending = .notALevel .basicFormat := by
  decide +kernel

end ScalarEval.Command
