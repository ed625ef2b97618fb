import Checkup.Install
import Checkup.Report.Style

/-!
# Reports on installations
-/

namespace Checkup.Report

/-- What became of a command. One that was there is worth a line only to the verbose. -/
def installLine (verbose : Bool) (r : Install.Report) : Option String :=
  match r.outcome with
  | .already => if verbose then some (r.command ++ " is already installed") else none
  | .installed => some ("Installed " ++ green r.command)
  | .failed reason => some ("Failed to install " ++ red r.command ++ ": " ++ reason)

/-- What became of all commands, one a line. -/
def installs (reports : List Install.Report) (verbose : Bool) : String :=
  "\n".intercalate (reports.filterMap (installLine verbose))

end Checkup.Report
