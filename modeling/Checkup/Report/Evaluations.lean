import Checkup.History
import Checkup.Report.Style

/-!
# Reports on evaluations

* `Report.commandSection`, `Report.runSummary` — while a run goes on, and at its end.
* `Report.historyList`, `Report.historyDetail` — past runs. A detail starts with
  the line of its run in the list, less the number.
-/

namespace Checkup.Report

/-! ## Runs -/

/-- The heading above the commands of a source. -/
def sourceHeading (source : String) : String := "Evaluating " ++ source

/-- The command line of an evaluation, as it was started. -/
def invocation (source : String) (e : CommandEvaluation) : String :=
  " ".intercalate (e.command :: source :: e.args)

/-- What a command wrote, under its name; with a source, the command line comes
first. The name is underlined as far as it has bytes. -/
def commandSection (e : CommandEvaluation) (source : Option String) : String :=
  e.command ++ "\n" ++ String.ofList (List.replicate e.command.utf8ByteSize '-') ++ "\n" ++
    (match source with
      | some source => dimmed (invocation source e) ++ "\n"
      | none => "") ++
    String.join (e.output.map (· ++ "\n"))

/-- The end of a run: the commands that failed, source by source. -/
def runSummary (e : Evaluation) : String :=
  heading "Summary" ++ "\n\n" ++
    if e.failures.isEmpty then "Statue finished successfully!"
    else
      "Statue has failed on the following commands:\n" ++
        String.join (e.failures.map fun (source, commands) =>
          "\n" ++ source ++ ":\n\t" ++ ", ".intercalate commands)

/-! ## Past runs -/

/-- When the evaluation at a path was saved. -/
def savedAt (path : String) : String :=
  yellow (((History.moment? path).map Moment.text).getD "unknown time")

/-- How many commands ended well. -/
def ratio (e : Evaluation) : String :=
  toString e.successCount ++ "/" ++ toString e.commandCount ++ " successful"

/-- A past run in a line. -/
def runLine (path : String) (e : Evaluation) : String :=
  savedAt path ++ " - " ++ status e.success ++ " (" ++ ratio e ++ ")"

/-- Past runs, numbered from one on. -/
def historyList (runs : List (String × Evaluation)) : String :=
  if runs.isEmpty then "No previous evaluations."
  else
    "\n".intercalate <| runs.zipIdx.map fun ((path, e), index) =>
      toString (index + 1) ++ ") " ++ runLine path e

/-- A past run, with all its commands. -/
def historyDetail (path : String) (e : Evaluation) : String :=
  runLine path e ++ String.join (e.entries.map fun (source, results) =>
    "\n" ++ source ++ ":" ++ String.join (results.map fun (r : CommandEvaluation) =>
      "\n\t" ++ r.command ++ " - " ++ status r.success))

end Checkup.Report
