import Checkup.Arguments.Read
import Checkup.Logging
import Checkup.Launch.Execution
import Checkup.Program

/-!
# The program on its command line

From the arguments, the environment and the files to what is printed and the
exit status.

* `CommandLine.loggingSettings` — options of the command line over the settings
  of the configuration.
* `CommandLine.run` — everything, without effects: the files afterwards are part
  of the `Ending`.
-/

namespace Checkup

/-- What the program leaves behind. -/
structure Ending where
  /-- its exit status -/
  exitCode : Nat
  /-- what it prints -/
  out : String := ""
  /-- the errors that it prints -/
  err : String := ""
  /-- the files afterwards -/
  files : FileTree

namespace CommandLine

/-- The workspace of an invocation. -/
def workspaceOf (g : Globals) (files : FileTree) : Workspace := ⟨g.workspacePath, g.config, files⟩

/-- The tools that start programs in a workspace, whatever the monad. -/
def programTools {m : Type → Type} [Monad m] (w : Workspace) : Tools m where
  execute := Launch.executor w.files w.path
  installer := Launch.installer w.files w.path

/-- The command that was started first ends first. -/
def oldestFirst : Schedule Run.Task := fun _ => 0

/-- Answers an invocation with programs. -/
def respond (g : Globals) (request : Request) (now : Int) (files : FileTree) : Response :=
  let w := workspaceOf g files
  Id.run (Program.respond (programTools w) oldestFirst now w request)

/-! ## Logging -/

/-- The settings that the command line starts from. A broken configuration counts as
none here: the request itself will report it. -/
def loadedSettings (w : Workspace) : LoggingSettings :=
  match Program.loadConfig w with
  | .ok c => c.logging
  | .error _ => {}

/-- Options of the command line over settings. The log file lies in the workspace unless
its path is absolute. -/
def loggingSettings (g : Globals) (s : LoggingSettings) : LoggingSettings :=
  { s with
    enabled := s.enabled && !g.quiet
    level := g.logLevel.getD (if g.verbose then "debug" else s.level)
    format := g.logFormat.getD s.format
    output := g.logOutput.getD s.output
    file := Path.join g.workspacePath (g.logFile.getD s.file) }

/-! ## Running the program -/

/-- How the program is called. -/
def usage : String := "Usage: statue [OPTIONS] <COMMAND>"

/-- Ends with help, or with a complaint about the command line. -/
def refuse (e : UsageError) (files : FileTree) : Ending :=
  if e = .help then { exitCode := 0, out := usage ++ "\n", files }
  else { exitCode := 2, err := usage ++ "\n", files }

/-- Ends as a response tells. -/
def finish (r : Response) : Ending :=
  match r.outcome with
  | .error e => { exitCode := 1, out := r.printed, err := e.message ++ "\n", files := r.files }
  | .ok reply =>
    { exitCode := if reply.success then 0 else 1
      out := r.printed ++ reply.text ++ "\n"
      files := r.files }

/-- Runs the program: reads the command line, prepares logging, and answers. -/
def run (arguments : List String) (environment : Environment) (now : Int) (files : FileTree) :
    Ending :=
  match Invocation.ofArguments arguments with
  | .error e => refuse e files
  | .ok ⟨g, request⟩ =>
    let settings := loggingSettings g (loadedSettings (workspaceOf g files))
    match Logging.prepare environment settings files with
    | (.error e, files) =>
      { exitCode := 1
        err := "Failed to initialize logging: " ++ (Error.config e).message ++ "\n"
        files }
    | (.ok _, files) => finish (respond g request now files)

end CommandLine

end Checkup
