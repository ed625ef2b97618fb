import Checkup.Report.Style
import Checkup.Setup

/-!
# Reports on setting up
-/

namespace Checkup.Report

/-- What was written, and the sources in it. -/
def setup (s : Setup) : String :=
  (if s.overwritten then "Overwrote " else "Created ") ++ s.path ++ "\n" ++
    if s.sources.isEmpty then "No Python sources found."
    else
      "Sources (" ++ toString s.sources.size ++ "):" ++
        String.join (s.sources.entries.map fun (path, settings) =>
          "\n  " ++ path ++ " (contexts: " ++ listing settings.contexts ++ ")")

end Checkup.Report
