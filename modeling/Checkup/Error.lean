/-!
# What can go wrong

Every failure is a cause; its wording is one function of the cause.

* `ResolveError` — a request names something the registry or catalog lacks.
* `Problem` — one finding of configuration validation.
* `ConfigError`, `HistoryError` — reading the configuration or the history failed.
* `Error` — any of these, or a failure of the file system.
-/

namespace Checkup

/-- Why a request could not be resolved. -/
inductive ResolveError where
  /-- no context has this name or alias -/
  | unknownContext (identifier : String)
  /-- following parents came back to this context -/
  | cyclicContext (name : String)
  /-- no command has this name -/
  | unknownCommand (name : String)
  deriving DecidableEq, Repr

/-- The wording of a resolution failure. -/
def ResolveError.message : ResolveError → String
  | .unknownContext identifier => "Unknown context: \"" ++ identifier ++ "\""
  | .cyclicContext name => "Cyclic context inheritance detected at \"" ++ name ++ "\""
  | .unknownCommand name => "Could not find command named \"" ++ name ++ "\""

/-- One thing that is wrong with a configuration. -/
inductive Problem where
  /-- an alias of `second` already belongs to `first`, as its name or alias -/
  | ambiguousAlias (identifier first second : String)
  /-- a context's parent is not the name of a context -/
  | unknownParent (context parent : String)
  /-- a context is its own ancestor; the chain starts and ends at it -/
  | cyclicParents (context : String) (chain : List String)
  /-- a command has no help text, or a blank one -/
  | missingHelp (command : String)
  /-- a command that patches nothing has patch-only settings -/
  | patchOnly (command : String)
  /-- a command refers to a context by an alias -/
  | aliasAsKey (command identifier owner : String)
  /-- a command refers to a context that does not exist -/
  | unknownKey (command identifier : String)
  /-- a source asks for a context that does not exist -/
  | unknownSourceContext (path identifier : String)
  deriving DecidableEq, Repr

/-- What a problem is about. -/
inductive Problem.Subject where
  /-- a context -/
  | context (name : String)
  /-- a command -/
  | command (name : String)
  /-- a source path -/
  | source (path : String)
  deriving DecidableEq, Repr

namespace Problem

/-- The one thing a problem is about; an ambiguous alias is about two contexts alike. -/
def subject? : Problem → Option Subject
  | ambiguousAlias .. => none
  | unknownParent context _ => some (.context context)
  | cyclicParents context _ => some (.context context)
  | missingHelp command => some (.command command)
  | patchOnly command => some (.command command)
  | aliasAsKey command _ _ => some (.command command)
  | unknownKey command _ => some (.command command)
  | unknownSourceContext path _ => some (.source path)

/-- The problem itself, without its subject. -/
def detail : Problem → String
  | ambiguousAlias identifier first second =>
    "Alias '" ++ identifier ++ "' is claimed by both '" ++ first ++ "' and '" ++ second ++ "'"
  | unknownParent _ parent => "Unknown parent context '" ++ parent ++ "'"
  | cyclicParents _ chain => "Cyclic parent chain: " ++ " -> ".intercalate chain
  | missingHelp _ => "Missing help text"
  | patchOnly _ => "add_args and clear_args only patch a built-in command; use args"
  | aliasAsKey _ identifier owner =>
    "'" ++ identifier ++ "' is an alias of '" ++ owner ++ "'; use the context name"
  | unknownKey _ identifier => "Unknown context '" ++ identifier ++ "'"
  | unknownSourceContext _ identifier => "Unknown context '" ++ identifier ++ "'"

/-- The wording of a problem: its subject, then what is wrong with it. -/
def message (p : Problem) : String :=
  match p.subject? with
  | none => p.detail
  | some (.context name) => "Context '" ++ name ++ "': " ++ p.detail
  | some (.command name) => "Command '" ++ name ++ "': " ++ p.detail
  | some (.source path) => "Source '" ++ path ++ "': " ++ p.detail

end Problem

/-- Why there is no usable configuration. -/
inductive ConfigError where
  /-- validation found problems -/
  | invalid (problems : List Problem)
  /-- a workspace defines a context that is built in -/
  | predefinedContext (name : String)
  /-- the named configuration file does not exist -/
  | fileNotFound (path : String)
  /-- the workspace is not a directory -/
  | workspaceNotFound (path : String)
  /-- a configuration file is in the way -/
  | alreadyExists (path : String)
  /-- the document is not well-formed, or a table has the wrong shape -/
  | malformed (path : String)
  /-- the general or logging settings cannot be coerced -/
  | settings
  /-- the user could not be asked -/
  | noUserInput
  /-- the logging format is not one of the known ones -/
  | logFormat (format : String)
  /-- the logging destination is not one of the known ones -/
  | logOutput (output : String)
  /-- the logging level is not a filter -/
  | logLevel (level : String)
  /-- the level of a module is not a filter -/
  | logDirective
  /-- the directory of the log file cannot be made -/
  | logDirectory
  /-- the log file cannot be opened -/
  | logFile (path : String)
  deriving DecidableEq, Repr

/-- The wording of a configuration failure. -/
def ConfigError.message : ConfigError → String
  | invalid problems =>
    "Configuration validation failed:\n" ++ "\n".intercalate (problems.map Problem.message)
  | predefinedContext name =>
    "\"" ++ name ++ "\" is a predefined context and cannot be overridden"
  | fileNotFound path => "Configuration file not found: " ++ path
  | workspaceNotFound path => "Workspace directory not found: " ++ path
  | alreadyExists path => path ++ " already exists (use --force to overwrite)"
  | malformed path => "Failed to parse " ++ path
  | settings => ""
  | noUserInput => "Failed to get user input"
  | logFormat format => "Invalid log format: " ++ format ++ " (must be 'json' or 'text')"
  | logOutput output =>
    "Invalid log output: " ++ output ++ " (must be 'stdout', 'stderr' or 'file')"
  | logLevel level => "Invalid log level '" ++ level ++ "'"
  | logDirective => "Invalid log directive"
  | logDirectory => "Failed to create log directory"
  | logFile path => "Failed to open log file " ++ path

/-- Why a stored evaluation could not be had. -/
inductive HistoryError where
  /-- the history is shorter than the number asked for -/
  | missing (number stored : Nat)
  /-- the file cannot be read as text -/
  | unreadable (path : String)
  deriving DecidableEq, Repr

/-- The wording of a history failure. -/
def HistoryError.message : HistoryError → String
  | missing number stored =>
    "Could not find evaluation number " ++ toString number ++ " (" ++ toString stored ++ " stored)"
  | unreadable path => "Failed to read evaluation " ++ path

/-- Any failure that a command line reports. -/
inductive Error where
  /-- a request could not be resolved -/
  | resolve (cause : ResolveError)
  /-- there is no usable configuration -/
  | config (cause : ConfigError)
  /-- a stored evaluation could not be had -/
  | history (cause : HistoryError)
  /-- a stored evaluation is not in the stored form -/
  | serialization
  /-- the file system refused -/
  | fileSystem
  deriving DecidableEq, Repr

/-- The wording of a failure. -/
def Error.message : Error → String
  | resolve cause => cause.message
  | config .settings => "Configuration error"
  | config cause => "Configuration error: " ++ cause.message
  | history cause => "History error: " ++ cause.message
  | serialization => "Serialization error"
  | fileSystem => "I/O error"

end Checkup
