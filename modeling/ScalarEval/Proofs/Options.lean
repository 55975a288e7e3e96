import Mathlib
import ScalarEval.Command.Report
import ScalarEval.Proofs.Request

/-! Options of the log. Written before a command, they decide where its records go, and neither
what the records are nor how the command ends. -/
namespace ScalarEval.Command

/-- The options that set the level of the console. -/
inductive Flag where
  | verbose | quiet
  deriving DecidableEq, Repr

namespace Flag

def letter : Flag → Char
  | verbose => 'v'
  | quiet => 'q'

def word : Flag → String
  | verbose => "--verbose"
  | quiet => "--quiet"

def option : Flag → GlobalOption
  | verbose => .verbose
  | quiet => .quiet

def set (s : Settings) : Flag → Settings
  | verbose => { s with verbose := true }
  | quiet => { s with quiet := true }

def isSet (s : Settings) : Flag → Bool
  | verbose => s.verbose
  | quiet => s.quiet

theorem isSet_set_iff {s : Settings} {f g : Flag} :
    f.isSet (g.set s) = true ↔ f.isSet s = true ∨ f = g := by
  cases f <;> cases g <;> simp [isSet, set]

theorem isSet_foldl_iff {s : Settings} {f : Flag} {fs : List Flag} :
    f.isSet (fs.foldl set s) = true ↔ f.isSet s = true ∨ f ∈ fs := by
  induction fs generalizing s with
  | nil => simp
  | cons g fs ih => rw [List.foldl_cons, ih, isSet_set_iff, or_assoc, List.mem_cons]

theorem letter?_letter (f : Flag) : globalSpellings.letter? f.letter = some f.option := by
  cases f <;> decide +kernel

theorem letters?_letter (fs : List Flag) :
    globalSpellings.letters? (fs.map letter) = some (fs.map option) := by
  unfold Spellings.letters?
  induction fs with
  | nil => rfl
  | cons f fs ih =>
    rw [List.map_cons, List.mapM_cons, letter?_letter, ih]
    rfl

theorem flag_option (s : Settings) (f : Flag) : s.flag f.option = .ok (f.set s) := by
  cases f <;> rfl

theorem foldlM_option (fs : List Flag) (s : Settings) :
    (fs.map option).foldlM Settings.flag s = .ok (fs.foldl set s) := by
  induction fs generalizing s with
  | nil => rfl
  | cons f fs ih =>
    rw [List.map_cons, List.foldlM_cons, flag_option]
    exact ih (f.set s)

theorem classify_word (f : Flag) : classify globalSpellings f.word = .option f.option := by
  cases f <;> decide +kernel

theorem dropWhile_letters (fs : List Flag) : (fs.map letter).dropWhile (· ≠ '=') = [] := by
  rw [List.dropWhile_eq_nil_iff]
  intro c hc
  obtain ⟨f, -, rfl⟩ := List.mem_map.mp hc
  cases f <;> decide

theorem classify_letter (f : Flag) :
    classify globalSpellings (String.ofList ['-', f.letter]) = .option f.option := by
  cases f <;> decide +kernel

/-- More letters after one are joined to it. -/
theorem classify_letters (f g : Flag) (fs : List Flag) :
    classify globalSpellings (String.ofList ('-' :: (f :: g :: fs).map letter)) =
      .cluster f.option ((g :: fs).map letter) := by
  have hlookup : globalSpellings.lookup? ('-' :: f.letter :: g.letter :: fs.map letter) = none := by
    cases f <;> cases g <;> rfl
  have hassigned : assignment? globalSpellings ('-' :: f.letter :: g.letter :: fs.map letter) =
      none := by
    have hdash : ('-' :: (f :: g :: fs).map letter).dropWhile (· ≠ '=') = [] := by
      rw [List.dropWhile_cons_of_pos (by decide), dropWhile_letters]
    rw [List.map_cons, List.map_cons] at hdash
    simp only [assignment?, hdash]
  have habbreviation : ∀ cs, abbreviation? globalSpellings ('-' :: f.letter :: cs) =
      (globalSpellings.letter? f.letter).map (.cluster · cs) := by
    intro cs
    cases f <;> rfl
  unfold classify
  simp only [String.toList_ofList, List.map_cons, hlookup, hassigned, habbreviation,
    letter?_letter]
  rfl

end Flag

/-- An option as it is written. Letters of flags may be joined, and a path may follow an equals
sign, which it must where it looks like an option itself. -/
inductive LogOption where
  | word (f : Flag)
  | letters (f : Flag) (fs : List Flag)
  | file (path : String) (h : classify globalSpellings path = .positional)
  | assigned (path : String)

namespace LogOption

def arguments : LogOption → List String
  | word f => [f.word]
  | letters f fs => [String.ofList ('-' :: (f :: fs).map Flag.letter)]
  | file path _ => ["--log-file", path]
  | assigned path => ["--log-file=" ++ path]

/-- The flags that an option gives. -/
def flags : LogOption → List Flag
  | word f => [f]
  | letters f fs => f :: fs
  | file .. | assigned _ => []

def set (s : Settings) : LogOption → Settings
  | word f => f.set s
  | letters f fs => (f :: fs).foldl Flag.set s
  | file path _ | assigned path => s.withLogFile path

theorem classify_logFile : classify globalSpellings "--log-file" = .option .logFile := by
  decide +kernel

theorem classify_assigned (path : String) :
    classify globalSpellings ("--log-file=" ++ path) = .assigned .logFile path.toList := by
  have hchars : ("--log-file=" ++ path).toList =
      '-' :: '-' :: ("log-file".toList ++ '=' :: path.toList) := by
    rw [String.toList_append]
    rfl
  have hlookup : globalSpellings.lookup?
      ('-' :: '-' :: ("log-file".toList ++ '=' :: path.toList)) = none := rfl
  -- An equals sign after one letter is taken in another way where text follows it.
  have hassigned : assignment? globalSpellings
      ('-' :: '-' :: ("log-file".toList ++ '=' :: path.toList)) =
        some (.assigned .logFile path.toList) := by
    cases path.toList <;> rfl
  unfold classify
  simp only [hchars, hlookup, hassigned]
  rfl

theorem ne_separator {a : String} (h : classify globalSpellings a ≠ .ambiguous) :
    a ≠ separator := by
  rintro rfl
  exact h (by decide +kernel)

theorem readGlobals_flag {a : String} {f : Flag} (h : classify globalSpellings a = .option f.option)
    (s : Settings) (tidy : Bool) (rest : List String) :
    readGlobals s tidy (a :: rest) = readGlobals (f.set s) tidy rest := by
  have hne : a ≠ separator := ne_separator (by simp [h])
  conv_lhs => unfold readGlobals
  cases f <;> simp only [h, if_neg hne, Flag.option] <;> rfl

/-- The reader goes on behind an option under the settings that the option leaves. -/
theorem readGlobals_arguments (o : LogOption) (s : Settings) (tidy : Bool) (rest : List String) :
    readGlobals s tidy (o.arguments ++ rest) = readGlobals (o.set s) tidy rest := by
  cases o with
  | word f => exact readGlobals_flag f.classify_word s tidy rest
  | letters f fs =>
    cases fs with
    | nil => exact readGlobals_flag f.classify_letter s tidy rest
    | cons g fs =>
      have hclass := f.classify_letters g fs
      have hne := ne_separator (a := String.ofList ('-' :: (f :: g :: fs).map Flag.letter))
        (by rw [hclass]; simp)
      have hset := Flag.foldlM_option (f :: g :: fs) s
      conv_lhs => unfold readGlobals
      simp only [arguments, List.cons_append, List.nil_append, hclass, if_neg hne,
        Flag.letters?_letter]
      rw [← List.map_cons, hset]
      rfl
  | file path h =>
    have hne : "--log-file" ≠ separator := by decide
    conv_lhs => unfold readGlobals
    simp only [arguments, List.cons_append, List.nil_append, if_neg hne, classify_logFile, h,
      if_true]
    rfl
  | assigned path =>
    have hclass := classify_assigned path
    have hne := ne_separator (a := "--log-file=" ++ path) (by simp [hclass])
    conv_lhs => unfold readGlobals
    simp only [arguments, List.cons_append, List.nil_append, hclass, if_neg hne,
      String.ofList_toList]
    rfl

/-- No argument of an option is the start of two options. -/
theorem classify_ne_ambiguous (o : LogOption) :
    ∀ a ∈ o.arguments, classify globalSpellings a ≠ .ambiguous := by
  intro a ha
  cases o with
  | word f =>
    obtain rfl := List.mem_singleton.mp ha
    rw [f.classify_word]
    simp
  | letters f fs =>
    obtain rfl := List.mem_singleton.mp ha
    cases fs with
    | nil =>
      rw [List.map_singleton, f.classify_letter]
      simp
    | cons g fs =>
      rw [f.classify_letters g fs]
      simp
  | file path h =>
    rcases List.mem_pair.mp ha with rfl | rfl
    · simp [classify_logFile]
    · simp [h]
  | assigned path =>
    obtain rfl := List.mem_singleton.mp ha
    rw [classify_assigned]
    simp

end LogOption

/-- The arguments in which options are written, one after another. -/
def written (os : List LogOption) : List String :=
  os.flatMap LogOption.arguments

/-- The settings that options leave. -/
def settings (os : List LogOption) : Settings :=
  os.foldl LogOption.set .initial

/-- The flags that options give. -/
def flags (os : List LogOption) : List Flag :=
  os.flatMap LogOption.flags

theorem isSet_settings_iff {os : List LogOption} {f : Flag} :
    f.isSet (settings os) = true ↔ f ∈ flags os := by
  have hset : ∀ (o : LogOption) (s : Settings),
      f.isSet (o.set s) = true ↔ f.isSet s = true ∨ f ∈ o.flags := by
    intro o s
    cases o with
    | word g => simp [LogOption.set, LogOption.flags, Flag.isSet_set_iff]
    | letters g gs => exact Flag.isSet_foldl_iff
    | file path h | assigned path => cases f <;> simp [LogOption.set, LogOption.flags] <;> rfl
  have hfold : ∀ s : Settings,
      f.isSet (os.foldl LogOption.set s) = true ↔ f.isSet s = true ∨ f ∈ flags os := by
    induction os with
    | nil => simp [flags]
    | cons o os ih =>
      intro s
      have hflags : flags (o :: os) = o.flags ++ flags os := List.flatMap_cons
      rw [List.foldl_cons, ih, hset, or_assoc, hflags, List.mem_append]
  rw [settings, hfold]
  cases f <;> simp [Flag.isSet, Settings.initial]

theorem readGlobals_written (os : List LogOption) (s : Settings) (tidy : Bool)
    (rest : List String) :
    readGlobals s tidy (written os ++ rest) = readGlobals (os.foldl LogOption.set s) tidy rest := by
  induction os generalizing s with
  | nil => rfl
  | cons o os ih =>
    change readGlobals s tidy (o.arguments ++ written os ++ rest) = _
    rw [List.append_assoc, o.readGlobals_arguments, ih]
    rfl

theorem hasAmbiguous_written (os : List LogOption) (rest : List String) :
    hasAmbiguous (written os ++ rest) = hasAmbiguous rest := by
  have hclear : ∀ a ∈ written os, classify globalSpellings a ≠ .ambiguous := by
    intro a ha
    obtain ⟨o, -, ho⟩ := List.mem_flatMap.mp ha
    exact o.classify_ne_ambiguous a ho
  have hoptions : ∀ a ∈ written os, decide (a ≠ separator) = true := fun a ha =>
    decide_eq_true (LogOption.ne_separator (hclear a ha))
  have hnone : (written os).any (fun a => classify globalSpellings a = .ambiguous) = false := by
    rw [List.any_eq_false]
    intro a ha
    simpa using hclear a ha
  unfold hasAmbiguous
  rw [List.takeWhile_append_of_pos hoptions, List.any_append, hnone, Bool.false_or]

/-- A command is the same under all settings. -/
theorem readCommand_eq_run {s s' : Settings} {tidy : Bool} {name : String}
    {arguments : List String} {c : Command} (h : readCommand s tidy name arguments = .run s' c)
    (t : Settings) : readCommand t tidy name arguments = .run t c := by
  unfold readCommand at h ⊢
  cases hform : form? name with
  | none => simp [hform] at h
  | some f =>
    simp only [hform] at h ⊢
    cases htail : readTail f.spellings ⟨f.positionals, [], none, true, false⟩ arguments with
    | help | misuse => simp [htail] at h
    | complete found rightKind rest =>
      simp only [htail] at h ⊢
      cases hcommand : f.command? found rightKind with
      | none => simp [hcommand] at h
      | some d =>
        simp only [hcommand] at h ⊢
        split at h
        next htidy =>
          cases h
          rw [if_pos htidy]
        next => cases h

theorem request_written (os : List LogOption) {name : String} (hname : Undashed name)
    {arguments : List String} {s : Settings} {c : Command}
    (h : request (name :: arguments) = .run s c) :
    request (written os ++ name :: arguments) = .run (settings os) c := by
  have hcommand : ∀ s, readGlobals s true (name :: arguments) =
      readCommand s true name arguments := by
    intro s
    conv_lhs => unfold readGlobals
    simp only [if_neg hname.ne_separator, hname.classify_eq]
  unfold request at h ⊢
  rw [hcommand] at h
  rw [hasAmbiguous_written, readGlobals_written, hcommand]
  split at h
  next => cases h
  next hclear =>
    rw [if_neg hclear]
    exact readCommand_eq_run h _

/-- After an equals sign a separator is a path like others. -/
example : request ["--log-file=--", "kinds"] = .run ⟨false, false, some "--"⟩ .kinds := by
  decide +kernel

/-- What a command leaves for the log. -/
def records (c : Command) : List Record :=
  c.evaluate.records ++ closingRecords c.evaluate.outcome

theorem perform_eq (s : Settings) (c : Command) :
    perform s none c = ⟨ending c.evaluate.outcome,
      if s.verbose && !s.quiet then records c else [], s.logFile.map (·, records c)⟩ := by
  obtain ⟨verbose, quiet, logFile⟩ := s
  cases verbose <;> cases quiet <;> cases logFile <;> rfl

/-- Runs of one command under two choices of options end alike and have the same records for a log
file. The console shows by the flags alone either these records or none. -/
theorem report_written {name : String} {arguments : List String} {s : Settings} {c : Command}
    (hname : name = "bin" ∨ name = "un") (h : request (name :: arguments) = .run s c)
    (os os' : List LogOption) :
    let r := report none (written os ++ name :: arguments)
    let r' := report none (written os' ++ name :: arguments)
    r.ending = r'.ending ∧
      r.log = (settings os).logFile.map (·, records c) ∧
      r'.log = (settings os').logFile.map (·, records c) ∧
      ((∀ f, f ∈ flags os ↔ f ∈ flags os') → r.console = r'.console) ∧
      (.quiet ∈ flags os → r.console = []) ∧
      (.verbose ∈ flags os → .quiet ∉ flags os → r.console = records c) := by
  have hundashed : Undashed name := by rcases hname with rfl | rfl <;> decide
  have hreport : ∀ os : List LogOption, report none (written os ++ name :: arguments) =
      ⟨ending c.evaluate.outcome,
        if (settings os).verbose && !(settings os).quiet then records c else [],
        (settings os).logFile.map (·, records c)⟩ := by
    intro os
    unfold report
    rw [request_written os hundashed h]
    exact perform_eq _ _
  intro r r'
  have hr : r = _ := hreport os
  have hr' : r' = _ := hreport os'
  rw [hr, hr']
  refine ⟨rfl, rfl, rfl, fun hflags => ?_, fun hquiet => ?_, fun hverbose hquiet => ?_⟩
  · have hset : ∀ f : Flag, f.isSet (settings os) = f.isSet (settings os') := by
      intro f
      rw [Bool.eq_iff_iff, isSet_settings_iff, isSet_settings_iff]
      exact hflags f
    have hverbose : (settings os).verbose = (settings os').verbose := hset .verbose
    have hquiet : (settings os).quiet = (settings os').quiet := hset .quiet
    rw [hverbose, hquiet]
  · have hset : (settings os).quiet = true := isSet_settings_iff.mpr hquiet
    simp [hset]
  · have hset : (settings os).verbose = true := isSet_settings_iff.mpr hverbose
    have hunset : (settings os).quiet = false := by
      rw [← Bool.not_eq_true]
      exact fun h => hquiet (isSet_settings_iff.mp h)
    simp [hset, hunset]

theorem report_written_quiet :
    request ["bin", "mul", "i16", "200", "200"] =
        .run .initial (.binary (.arithmetic .mul) .i16 "200" "200" none) ∧
      (report none ["-vvq", "--log-file=eval.log", "bin", "mul", "i16", "200", "200"]).ending =
        (report none ["bin", "mul", "i16", "200", "200"]).ending ∧
      (report none ["-vvq", "--log-file=eval.log", "bin", "mul", "i16", "200", "200"]).console =
        [] := by
  have hoperand : Undashed "200" := by decide
  have hrun : request ["bin", "mul", "i16", "200", "200"] =
      .run .initial (.binary (.arithmetic .mul) .i16 "200" "200" none) :=
    request_binary (.arithmetic .mul) .i16 hoperand hoperand none
  have h := report_written (.inl rfl) hrun
    [.letters .verbose [.verbose, .quiet], .assigned "eval.log"] []
  have hwritten : written [.letters .verbose [.verbose, .quiet], .assigned "eval.log"] =
      ["-vvq", "--log-file=eval.log"] := by decide +kernel
  rw [hwritten] at h
  exact ⟨hrun, h.1, h.2.2.2.2.1 (by decide)⟩

end ScalarEval.Command
