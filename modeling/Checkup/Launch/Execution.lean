import Checkup.Install
import Checkup.Launch.Start
import Checkup.Run

/-!
# Checking with programs

Commands of a plan are programs, started in the workspace with the source and
their arguments; so is the installer.

* `Launch.executor` — evaluates a command by starting it.
* `Launch.installer` — installs a command by starting the install command.
-/

namespace Checkup.Launch

/-- The evaluation of a program that has ended: what it wrote to its output comes first. -/
def evaluationOf (e : Plan.Entry) (f : Finished) : CommandEvaluation where
  command := e.command
  args := e.args
  success := f.status.success
  exitCode := f.status.code?
  output := Text.lines f.out ++ Text.lines f.err

/-- The evaluation of a command on a source. -/
def evaluate (files : FileTree) (directory source : String) (e : Plan.Entry) :
    CommandEvaluation :=
  match start files directory e.command (source :: e.args) with
  | .ok finished => evaluationOf e finished
  | .error cause => .notStarted e.command e.args (cause.report e.command)

/-- Evaluates commands by starting them in a directory. -/
def executor {m : Type → Type} [Monad m] (files : FileTree) (directory : String) : Executor m :=
  fun source e => pure (evaluate files directory source e)

/-- Why an installation failed: the last line of the errors, or how the program ended. -/
def failureReason (program : String) (f : Finished) : String :=
  ((Text.lines f.err).getLast?).getD ("\"" ++ program ++ "\" exited with " ++ f.status.message)

/-- Installs a command by starting the install command in a directory. -/
def install (files : FileTree) (directory : String) (installCommand : List String)
    (command : String) : Except String Unit :=
  match installCommand with
  | [] => .error "No install command configured"
  | program :: arguments =>
    match start files directory program (arguments ++ [command]) with
    | .error cause => .error (cause.report program)
    | .ok finished =>
      if finished.status.success then .ok () else .error (failureReason program finished)

/-- Looks for programs and installs them by an install command. -/
def installer {m : Type → Type} [Monad m] (files : FileTree) (directory : String)
    (installCommand : List String) : Installer m where
  isInstalled command := pure (isInstalled command)
  install command := pure (install files directory installCommand command)

end Checkup.Launch
