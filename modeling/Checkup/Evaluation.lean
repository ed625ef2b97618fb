import Checkup.OrderedMap

/-!
# Evaluations

What came of running plans, source by source and in plan order.

* `CommandEvaluation` — one command on one source.
* `Results` — the commands of one source.
* `Evaluation` — the results of every source. A source that is evaluated again
  keeps its place and loses its earlier results.
-/

namespace Checkup

/-- What came of running one command on one source. -/
structure CommandEvaluation where
  /-- the program -/
  command : String
  /-- its arguments, after the source -/
  args : List String := []
  /-- whether it ended well -/
  success : Bool
  /-- its exit status; none if it never started or was stopped by a signal -/
  exitCode : Option Int32 := none
  /-- the lines it wrote -/
  output : List String := []
  deriving DecidableEq, Repr, Inhabited

/-- The evaluation of a command that could not be started. -/
def CommandEvaluation.notStarted (command : String) (args : List String) (reason : String) :
    CommandEvaluation where
  command
  args
  success := false
  output := [reason]

/-- What came of the commands of one source, in plan order. -/
abbrev Results := List CommandEvaluation

namespace Results

/-- Whether every command ended well. -/
def success (results : Results) : Bool := results.all (·.success)

/-- The number of commands that ended well. -/
def successful (results : Results) : Nat := results.countP (·.success)

/-- The names of the commands that did not end well. -/
def failed (results : Results) : List String :=
  (results.filter fun e => !e.success).map (·.command)

/-- Every command ended well or is among the failed ones. -/
theorem successful_add_length_failed (results : Results) :
    results.successful + results.failed.length = results.length := by
  simp only [successful, failed, List.length_map]
  induction results with
  | nil => rfl
  | cons e rest ih => cases h : e.success <;> simp [h] <;> omega

/-- Nothing failed exactly when every command ended well. -/
theorem failed_eq_nil_iff {results : Results} : results.failed = [] ↔ results.success = true := by
  simp [failed, success, List.filter_eq_nil_iff]

end Results

/-- The results of every source, in the order in which sources were first evaluated. -/
abbrev Evaluation := OrderedMap Results

namespace Evaluation

/-- Whether every command on every source ended well. -/
def success (e : Evaluation) : Bool := e.values.all Results.success

/-- The results of all sources together. -/
def allResults (e : Evaluation) : Results := e.values.flatten

/-- The number of commands that were to run. -/
def commandCount (e : Evaluation) : Nat := e.allResults.length

/-- The number of commands that ended well. -/
def successCount (e : Evaluation) : Nat := e.allResults.successful

/-- The sources with a failure, each with the names of the commands that failed. -/
def failures (e : Evaluation) : List (String × List String) :=
  (e.entries.filter fun entry => !Results.success entry.2).map fun entry =>
    (entry.1, Results.failed entry.2)

end Evaluation

end Checkup
