import Checkup.Config
import Checkup.Error
import Checkup.FileTree.Access
import Checkup.Logging.Directive

/-!
# Logging

What is logged, how and where, from the settings and the environment. The
environment wins over the settings, as far as it makes sense.

* `Logging.chosenFilter` — the records to log.
* `Logging.chosenFormat`, `Logging.chosenDestination` — how and where.
* `Logging.prepare` — all of it; a log file is made if it is not there.
-/

namespace Checkup

/-- The variables of the environment. -/
abbrev Environment := OrderedMap String

/-- How records are written. -/
inductive LogFormat where
  /-- for people -/
  | text
  /-- for programs -/
  | json
  deriving DecidableEq, Repr

/-- Where records go. -/
inductive LogDestination where
  /-- among the reports -/
  | stdout
  /-- among the errors -/
  | stderr
  /-- to the log file -/
  | file
  deriving DecidableEq, Repr

/-- Everything that logging needs. -/
structure Logging where
  /-- the records to log -/
  filter : List Directive
  /-- how they are written -/
  format : LogFormat
  /-- where they go -/
  destination : LogDestination
  deriving DecidableEq, Repr

namespace Logging

/-- The variable that holds a filter. -/
def filterVariable : String := "STATUE_LOG"

/-- The variable that holds the format. -/
def formatVariable : String := "STATUE_LOG_FORMAT"

/-- The variable that holds the destination. -/
def destinationVariable : String := "STATUE_LOG_OUTPUT"

/-- The filter of the settings: the level, and a directive for each module. When the
level is off, the modules do not count. -/
def settingsFilter (settings : LoggingSettings) : Except ConfigError (List Directive) := do
  if settings.level = "off" then return [{ level := .off }]
  let some filter := Directive.listOfText? settings.level | .error (.logLevel settings.level)
  let modules := settings.modules.entries.mapM fun (name, level) =>
    Directive.ofText? (name ++ "=" ++ level)
  let some modules := modules | .error .logDirective
  return filter ++ modules

/-- The filter of the environment if it is well-formed, else that of the settings. -/
def chosenFilter (environment : Environment) (settings : LoggingSettings) :
    Except ConfigError (List Directive) :=
  match (environment.get? filterVariable).bind Directive.listOfText? with
  | some filter => .ok filter
  | none => settingsFilter settings

/-- The format with a name. -/
def formatNamed : String → Except ConfigError LogFormat
  | "text" => .ok .text
  | "json" => .ok .json
  | name => .error (.logFormat name)

/-- The format of the environment if it is set, else that of the settings. -/
def chosenFormat (environment : Environment) (settings : LoggingSettings) :
    Except ConfigError LogFormat :=
  formatNamed ((environment.get? formatVariable).getD settings.format)

/-- The destination with a name. -/
def destinationNamed : String → Except ConfigError LogDestination
  | "stdout" => .ok .stdout
  | "stderr" => .ok .stderr
  | "file" => .ok .file
  | name => .error (.logOutput name)

/-- The destination of the environment if it is set, else that of the settings. -/
def chosenDestination (environment : Environment) (settings : LoggingSettings) :
    Except ConfigError LogDestination :=
  destinationNamed ((environment.get? destinationVariable).getD settings.output)

/-- How settings and environment come out. -/
def resolve (environment : Environment) (settings : LoggingSettings) :
    Except ConfigError Logging := do
  let filter ← chosenFilter environment settings
  let format ← chosenFormat environment settings
  let destination ← chosenDestination environment settings
  return ⟨filter, format, destination⟩

/-- Makes a log file and the directories before it. What has been made stays even if
the rest is refused. -/
def openFile (path : String) (files : FileTree) : Except ConfigError Unit × FileTree :=
  match ((Path.parent? path).map files.makeDirectories?).getD (some files) with
  | none => (.error .logDirectory, files)
  | some files =>
    match files.touch? path with
    | none => (.error (.logFile path), files)
    | some files => (.ok (), files)

/-- Prepares logging. There is nothing to prepare when it is disabled. -/
def prepare (environment : Environment) (settings : LoggingSettings) (files : FileTree) :
    Except ConfigError (Option Logging) × FileTree :=
  if !settings.enabled then (.ok none, files)
  else
    match resolve environment settings with
    | .error e => (.error e, files)
    | .ok logging =>
      match logging.destination with
      | .file =>
        let (opened, files) := openFile settings.file files
        (opened.map fun _ => some logging, files)
      | _ => (.ok (some logging), files)

end Logging

end Checkup
