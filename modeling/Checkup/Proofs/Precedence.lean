import Checkup.Program.CommandLine
import Checkup.Proofs.BuiltIn
import Checkup.Proofs.Entries

/-!
# Which logging settings count

A logging setting can be given by an option, by the environment and by the configuration. The
documented order has options first; what counts is the environment:

* `Setting` — a setting as it is given, in the documented order and as it counts.
* `Setting.effective_eq_documented_iff` — both are the same unless option and environment
  contradict each other.
* `CommandLine.filterSetting`, `CommandLine.formatSetting`, `CommandLine.destinationSetting` — the
  settings that the environment knows.
* `CommandLine.run_eq` — how a command line ends, by what logging comes to.
* `CommandLine.environment_before_options` — which of them count for a command line, and what it
  comes to.
-/

namespace Checkup

universe u

/-! ## Settings in layers -/

/-- What a setting is given as. -/
structure Setting (α : Type u) where
  /-- on the command line -/
  option : Option α
  /-- in the environment -/
  environment : Option α
  /-- in the configuration -/
  configured : α

namespace Setting

variable {α : Type u} {s : Setting α}

/-- The documented order: an option counts, else the environment, else the configuration. -/
def documented (s : Setting α) : α := (s.option <|> s.environment).getD s.configured

/-- The order of the program: the environment counts, else an option, else the configuration. -/
def effective (s : Setting α) : α := (s.environment <|> s.option).getD s.configured

/-- Whether the environment says something else than an option. -/
def Conflicts (s : Setting α) : Prop :=
  ∃ x y, s.option = some x ∧ s.environment = some y ∧ x ≠ y

theorem effective_eq (s : Setting α) :
    s.effective = s.environment.getD (s.option.getD s.configured) := by
  rw [effective]
  cases s.environment <;> rfl

/-- The orders differ just in conflicts. -/
theorem effective_eq_documented_iff : s.effective = s.documented ↔ ¬ s.Conflicts := by
  obtain ⟨option, environment, configured⟩ := s
  rw [effective, documented, Conflicts]
  cases option with
  | none => simp
  | some x =>
    cases environment with
    | none => simp
    | some y => simp [eq_comm]

end Setting

namespace Logging

variable {environment : Environment} {settings : LoggingSettings} {files : FileTree}

theorem formatNamed_injective : Function.Injective formatNamed := by
  intro x y h
  simp only [formatNamed] at h
  split at h <;> split at h <;> simp_all

theorem destinationNamed_injective : Function.Injective destinationNamed := by
  intro x y h
  simp only [destinationNamed] at h
  split at h <;> split at h <;> simp_all

/-! ## Preparing -/

theorem prepare_of_disabled (h : settings.enabled = false) :
    prepare environment settings files = (.ok none, files) := by
  rw [prepare, if_pos (by simp [h])]

theorem prepare_of_error {e : ConfigError} (h : settings.enabled = true)
    (hresolve : resolve environment settings = .error e) :
    prepare environment settings files = (.error e, files) := by
  rw [prepare, if_neg (by simp [h]), hresolve]

theorem prepare_of_stream {logging : Logging} (h : settings.enabled = true)
    (hresolve : resolve environment settings = .ok logging)
    (hstream : logging.destination ≠ .file) :
    prepare environment settings files = (.ok (some logging), files) := by
  rw [prepare, if_neg (by simp [h]), hresolve]
  cases hdestination : logging.destination with
  | stdout => simp [hdestination]
  | stderr => simp [hdestination]
  | file => exact absurd hdestination hstream

theorem prepare_of_file {logging : Logging} (h : settings.enabled = true)
    (hresolve : resolve environment settings = .ok logging) (hfile : logging.destination = .file) :
    prepare environment settings files =
      ((openFile settings.file files).1.map fun _ => some logging,
        (openFile settings.file files).2) := by
  rw [prepare, if_neg (by simp [h]), hresolve]
  simp [hfile]

end Logging

namespace CommandLine

variable {arguments : List String} {g : Globals} {request : Request} {environment : Environment}
  {now : Int} {s : LoggingSettings} {files : FileTree}

/-! ## How a command line ends -/

/-- Ends without an answer, since nothing can be logged. -/
def notStarted (e : ConfigError) (files : FileTree) : Ending where
  exitCode := 1
  err := "Failed to initialize logging: " ++ (Error.config e).message ++ "\n"
  files := files

/-- Ends with an answer, if what had to be prepared has been. -/
def afterPreparing {α : Type} (g : Globals) (request : Request) (now : Int) :
    Except ConfigError α × FileTree → Ending
  | (.error e, files) => notStarted e files
  | (.ok _, files) => finish (respond g request now files)

@[simp] theorem afterPreparing_error {α : Type} (e : ConfigError) :
    afterPreparing (α := α) g request now (.error e, files) = notStarted e files := rfl

@[simp] theorem afterPreparing_ok {α : Type} (prepared : α) :
    afterPreparing g request now (.ok prepared, files) = finish (respond g request now files) := rfl

/-- A command line that is accepted ends as its preparation does, or as its request. -/
theorem run_eq (hargs : Invocation.ofArguments arguments = .ok ⟨g, request⟩) :
    run arguments environment now files =
      afterPreparing g request now
        (Logging.prepare environment
          (loggingSettings g (loadedSettings (workspaceOf g files))) files) := by
  rw [run, hargs]
  dsimp only
  cases Logging.prepare environment
    (loggingSettings g (loadedSettings (workspaceOf g files))) files with
  | mk prepared files => cases prepared <;> rfl

/-! ## The settings of a command line -/

/-- The level that options give: by name, or that of a verbose run. -/
def givenLevel? (g : Globals) : Option String :=
  g.logLevel <|> if g.verbose then some "debug" else none

/-- The filter, as it is given. A level goes with the modules of the configuration; what is no
filter does not count in the environment. -/
def filterSetting (g : Globals) (environment : Environment) (s : LoggingSettings) :
    Setting (Except ConfigError (List Directive)) where
  option := (givenLevel? g).map fun level => Logging.settingsFilter { s with level }
  environment :=
    ((environment.get? Logging.filterVariable).bind Directive.listOfText?).map .ok
  configured := Logging.settingsFilter s

/-- The format, as it is given. -/
def formatSetting (g : Globals) (environment : Environment) (s : LoggingSettings) :
    Setting String where
  option := g.logFormat
  environment := environment.get? Logging.formatVariable
  configured := s.format

/-- The destination, as it is given. -/
def destinationSetting (g : Globals) (environment : Environment) (s : LoggingSettings) :
    Setting String where
  option := g.logOutput
  environment := environment.get? Logging.destinationVariable
  configured := s.output

/-- A level of the command line takes the place of the configured one. -/
theorem settingsFilter_loggingSettings (g : Globals) (s : LoggingSettings) :
    Logging.settingsFilter (loggingSettings g s) =
      ((givenLevel? g).map fun level => Logging.settingsFilter { s with level }).getD
        (Logging.settingsFilter s) := by
  have hlevel : (loggingSettings g s).level = (givenLevel? g).getD s.level := by
    rw [loggingSettings, givenLevel?]
    cases g.logLevel <;> cases g.verbose <;> rfl
  -- only the level and the modules count in a filter
  have hfilter : Logging.settingsFilter (loggingSettings g s) =
      Logging.settingsFilter { s with level := (loggingSettings g s).level } := rfl
  rw [hfilter, hlevel]
  cases givenLevel? g <;> rfl

theorem chosenFilter_eq (g : Globals) (environment : Environment) (s : LoggingSettings) :
    Logging.chosenFilter environment (loggingSettings g s) =
      (filterSetting g environment s).effective := by
  rw [Logging.chosenFilter, Setting.effective_eq, filterSetting, settingsFilter_loggingSettings]
  cases (environment.get? Logging.filterVariable).bind Directive.listOfText? <;> rfl

theorem chosenFormat_eq (g : Globals) (environment : Environment) (s : LoggingSettings) :
    Logging.chosenFormat environment (loggingSettings g s) =
      Logging.formatNamed (formatSetting g environment s).effective := by
  rw [Setting.effective_eq]
  rfl

theorem chosenDestination_eq (g : Globals) (environment : Environment) (s : LoggingSettings) :
    Logging.chosenDestination environment (loggingSettings g s) =
      Logging.destinationNamed (destinationSetting g environment s).effective := by
  rw [Setting.effective_eq]
  rfl

/-- What logging comes to, setting by setting. -/
def effectiveLogging (g : Globals) (environment : Environment) (s : LoggingSettings) :
    Except ConfigError Logging := do
  let filter ← (filterSetting g environment s).effective
  let format ← Logging.formatNamed (formatSetting g environment s).effective
  let destination ← Logging.destinationNamed (destinationSetting g environment s).effective
  return ⟨filter, format, destination⟩

theorem resolve_eq_effectiveLogging (g : Globals) (environment : Environment)
    (s : LoggingSettings) :
    Logging.resolve environment (loggingSettings g s) = effectiveLogging g environment s := by
  rw [Logging.resolve, effectiveLogging, chosenFilter_eq, chosenFormat_eq, chosenDestination_eq]

theorem isName_configFile : Path.IsName "statue.toml" :=
  ⟨by decide, by decide, by decide, by decide +kernel⟩

/-- Without a configuration file there is the built-in configuration. -/
theorem exists_loadConfig_of_no_file {w : Workspace} (hconfig : w.config = none)
    (hfile : w.files.hasPath (Setup.configPath w.path) = false) :
    ∃ builtIn, Program.loadConfig w = .ok builtIn ∧ builtIn.logging = {} := by
  obtain ⟨builtIn, hbuiltIn, -, hlogging⟩ := Config.exists_defaults
  refine ⟨builtIn, ?_, hlogging⟩
  simp only [Program.loadConfig, hconfig, Config.load, hfile, Bool.false_eq_true, if_false,
    hbuiltIn]
  rfl

/-- Without a configuration file there are the default settings. -/
theorem loadedSettings_of_no_file {w : Workspace} (hconfig : w.config = none)
    (hfile : w.files.hasPath (Setup.configPath w.path) = false) : loadedSettings w = {} := by
  obtain ⟨builtIn, hload, hlogging⟩ := exists_loadConfig_of_no_file hconfig hfile
  rw [loadedSettings, hload]
  exact hlogging

/-- **The environment counts before options**, against the documented order, whatever is given.

* Each setting is that of the environment, else that of an option, else that of the
  configuration, which without a file has the defaults; it is the documented one just if
  environment and option do not contradict each other.
* A command line that is accepted, and that may log, is only answered if all three make sense and
  a log file can be opened, where there is to be one. -/
theorem environment_before_options (g : Globals) (environment : Environment)
    (s : LoggingSettings) :
    (Logging.resolve environment (loggingSettings g s) = effectiveLogging g environment s ∧
      (Logging.chosenFilter environment (loggingSettings g s) =
          (filterSetting g environment s).documented ↔
        ¬ (filterSetting g environment s).Conflicts) ∧
      (Logging.chosenFormat environment (loggingSettings g s) =
          Logging.formatNamed (formatSetting g environment s).documented ↔
        ¬ (formatSetting g environment s).Conflicts) ∧
      (Logging.chosenDestination environment (loggingSettings g s) =
          Logging.destinationNamed (destinationSetting g environment s).documented ↔
        ¬ (destinationSetting g environment s).Conflicts)) ∧
    (∀ w : Workspace, w.config = none → w.files.hasPath (Setup.configPath w.path) = false →
      loadedSettings w = {}) ∧
    ∀ arguments request now files, Invocation.ofArguments arguments = .ok ⟨g, request⟩ →
      loadedSettings (workspaceOf g files) = s → s.enabled = true → g.quiet = false →
      (∀ e, effectiveLogging g environment s = .error e →
        run arguments environment now files = notStarted e files) ∧
      ∀ logging, effectiveLogging g environment s = .ok logging →
        run arguments environment now files =
          if logging.destination = .file then
            afterPreparing g request now (Logging.openFile (loggingSettings g s).file files)
          else finish (respond g request now files) := by
  refine ⟨⟨resolve_eq_effectiveLogging g environment s, ?_, ?_, ?_⟩,
    fun w => loadedSettings_of_no_file, ?_⟩
  · rw [chosenFilter_eq]
    exact Setting.effective_eq_documented_iff
  · rw [chosenFormat_eq, Logging.formatNamed_injective.eq_iff]
    exact Setting.effective_eq_documented_iff
  · rw [chosenDestination_eq, Logging.destinationNamed_injective.eq_iff]
    exact Setting.effective_eq_documented_iff
  · intro arguments request now files hargs hloaded henabled hquiet
    have hlogs : (loggingSettings g s).enabled = true := by simp [loggingSettings, henabled, hquiet]
    rw [run_eq hargs, hloaded]
    refine ⟨fun e he => ?_, fun logging hlogging => ?_⟩
    · rw [Logging.prepare_of_error hlogs ((resolve_eq_effectiveLogging ..).trans he),
        afterPreparing_error]
    · have hresolve := (resolve_eq_effectiveLogging g environment s).trans hlogging
      by_cases hfile : logging.destination = .file
      · rw [if_pos hfile, Logging.prepare_of_file hlogs hresolve hfile]
        rcases Logging.openFile (loggingSettings g s).file files with ⟨- | -, -⟩ <;> rfl
      · rw [if_neg hfile, Logging.prepare_of_stream hlogs hresolve hfile, afterPreparing_ok]

/-- An environment with a format that there is not. -/
def unknownFormat : Environment := .ofList [(Logging.formatVariable, "xml")]

/-- A command line that gives the format. -/
def formatGiven : List String := ["--log-format", "text", "history", "list"]

/-- The options of that command line. -/
def formatGlobals : Globals := { logFormat := some "text" }

theorem ofArguments_formatGiven :
    Invocation.ofArguments formatGiven = .ok ⟨formatGlobals, .historyList none⟩ := by
  decide +kernel

theorem loadedSettings_nothing :
    loadedSettings (workspaceOf formatGlobals (.directory [])) = {} := by
  apply loadedSettings_of_no_file rfl
  exact FileTree.hasPath_join (FileTree.list?_dot []) (by decide) isName_configFile rfl

/-- The program ends in an empty workspace since the environment has an unknown format. -/
theorem environment_before_options_unknown :
    Invocation.ofArguments formatGiven = .ok ⟨formatGlobals, .historyList none⟩ ∧
    loadedSettings (workspaceOf formatGlobals (.directory [])) = {} ∧
    effectiveLogging formatGlobals unknownFormat {} = .error (.logFormat "xml") ∧
    run formatGiven unknownFormat 0 (.directory []) =
      notStarted (.logFormat "xml") (.directory []) := by
  have heffective :
      effectiveLogging formatGlobals unknownFormat {} = .error (.logFormat "xml") := by
    decide +kernel
  obtain ⟨-, -, hruns⟩ := environment_before_options formatGlobals unknownFormat {}
  obtain ⟨hrefused, -⟩ := hruns formatGiven (.historyList none) 0 (.directory [])
    ofArguments_formatGiven loadedSettings_nothing rfl rfl
  exact ⟨ofArguments_formatGiven, loadedSettings_nothing, heffective, hrefused _ heffective⟩

/-- The format that the option gives does not count there. -/
theorem given_format_is_not_chosen :
    Invocation.ofArguments formatGiven = .ok ⟨formatGlobals, .historyList none⟩ ∧
    loadedSettings (workspaceOf formatGlobals (.directory [])) = {} ∧
    Logging.formatNamed (formatSetting formatGlobals unknownFormat {}).documented = .ok .text ∧
    Logging.chosenFormat unknownFormat (loggingSettings formatGlobals {}) =
      .error (.logFormat "xml") ∧
    (run formatGiven unknownFormat 0 (.directory [])).exitCode = 1 := by
  refine ⟨ofArguments_formatGiven, loadedSettings_nothing, by decide +kernel, by decide +kernel, ?_⟩
  rw [run_eq ofArguments_formatGiven, loadedSettings_nothing]
  decide +kernel

end CommandLine

end Checkup
