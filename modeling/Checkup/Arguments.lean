/-!
# Command lines

What a command line asks for.

* `Request` — one of the commands, with its own arguments.
* `Globals` — the options that every command knows.
* `Invocation` — both.
* `UsageError` — why a command line is not accepted.
-/

namespace Checkup

/-- Contexts, and which commands may run. -/
structure Selection where
  /-- names or aliases of contexts, in order -/
  contexts : List String := []
  /-- if not empty, only these commands may run -/
  allow : List String := []
  /-- these commands may not run -/
  deny : List String := []
  deriving DecidableEq, Repr, Inhabited

/-- How much a run prints while commands end. -/
inductive Verbosity where
  /-- what each command wrote -/
  | normal
  /-- the command line of each command too -/
  | verbose
  /-- only the summary -/
  | silent
  deriving DecidableEq, Repr, Inhabited

/-- How plans are printed. -/
inductive PlanFormat where
  /-- for people -/
  | text
  /-- for programs -/
  | json
  deriving DecidableEq, Repr, Inhabited

/-- The arguments of a run. -/
structure RunArguments where
  /-- the sources to check; without any, the configured ones -/
  sources : List String := []
  /-- contexts and commands -/
  selection : Selection := {}
  /-- how many commands may run at a time -/
  jobs : Nat := 1
  /-- whether missing commands are installed first -/
  install : Bool := false
  /-- how much is printed -/
  verbosity : Verbosity := .normal
  /-- whether only the summary is printed, whatever the verbosity -/
  silent : Bool := false
  deriving DecidableEq, Repr, Inhabited

/-- The arguments of showing a plan. -/
structure PlanArguments where
  /-- the sources to plan for; without any, the configured ones -/
  sources : List String := []
  /-- contexts and commands -/
  selection : Selection := {}
  /-- how the plan is printed -/
  format : PlanFormat := .text
  deriving DecidableEq, Repr, Inhabited

/-- What is asked for. -/
inductive Request where
  /-- run commands on sources -/
  | run (arguments : RunArguments)
  /-- show what would run -/
  | plan (arguments : PlanArguments)
  /-- show all contexts -/
  | contextList
  /-- show the context with a name or alias -/
  | contextShow (name : String)
  /-- show the commands that contexts select -/
  | commandList (selection : Selection)
  /-- show one command under contexts -/
  | commandShow (name : String) (contexts : List String)
  /-- show past runs; at most so many of them, if a number is given -/
  | historyList (head : Option Nat)
  /-- show one past run; the newest one has the number one -/
  | historyShow (number : Nat)
  /-- write the configuration of a workspace -/
  | configInit (force : Bool)
  deriving DecidableEq, Repr, Inhabited

/-- The options that every command knows, as far as they are given. -/
structure Globals where
  /-- the directory of the workspace -/
  workspace : Option String := none
  /-- the configuration file to read in place of the workspace's own -/
  config : Option String := none
  /-- log all that helps in finding errors -/
  verbose : Bool := false
  /-- log nothing -/
  quiet : Bool := false
  /-- the logging level -/
  logLevel : Option String := none
  /-- the logging format -/
  logFormat : Option String := none
  /-- the logging destination -/
  logOutput : Option String := none
  /-- the log file -/
  logFile : Option String := none
  deriving DecidableEq, Repr, Inhabited

namespace Globals

/-- The workspace is the current directory unless it is given. -/
def workspacePath (g : Globals) : String := g.workspace.getD "."

/-- The options given at two levels of a command line; the inner level wins. -/
def under (inner outer : Globals) : Globals where
  workspace := inner.workspace <|> outer.workspace
  config := inner.config <|> outer.config
  verbose := inner.verbose || outer.verbose
  quiet := inner.quiet || outer.quiet
  logLevel := inner.logLevel <|> outer.logLevel
  logFormat := inner.logFormat <|> outer.logFormat
  logOutput := inner.logOutput <|> outer.logOutput
  logFile := inner.logFile <|> outer.logFile

end Globals

/-- A command line that is accepted. -/
structure Invocation where
  /-- the options that every command knows -/
  globals : Globals := {}
  /-- what is asked for -/
  request : Request
  deriving DecidableEq, Repr

/-- Why a command line is not accepted. -/
inductive UsageError where
  /-- help is asked for -/
  | help
  /-- nothing at all follows a command that has subcommands -/
  | nothingGiven
  /-- only options follow a command that has subcommands -/
  | missingSubcommand
  /-- there is no such subcommand -/
  | unknownSubcommand
  /-- there is no such option, or no place for the argument -/
  | unknownArgument
  /-- a value is missing, empty or none of the choices -/
  | invalidValue
  /-- a value is not a number, or out of range -/
  | notANumber
  /-- options exclude each other, or one is given twice -/
  | conflict
  /-- an argument is missing -/
  | missingArgument
  /-- an option without a value has one -/
  | unneededValue
  deriving DecidableEq, Repr

end Checkup
