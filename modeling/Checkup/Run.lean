import Checkup.Evaluation
import Checkup.Run.Window
import Checkup.Source

/-!
# Running plans

The commands of all source plans run through one window of bounded width, and
their results are gathered plan by plan.

* `Run.tasks` — every command of every plan, in plan order.
* `Run.gather` — the evaluation that results make up.
* `Run.run` — runs plans; what has been observed and the evaluation.

The executor is a program of any monad: it may start processes, follow a script
or keep a record of its calls.
-/

namespace Checkup

/-- One command to run on one source. -/
structure Run.Task where
  /-- the number of the plan, from zero on -/
  plan : Nat
  /-- the source -/
  source : String
  /-- the command with its arguments -/
  entry : Plan.Entry
  deriving DecidableEq, Repr, Inhabited

/-- Runs one command on one source. It never fails: what cannot be started is a
failed evaluation. -/
abbrev Executor (m : Type → Type) := String → Plan.Entry → m CommandEvaluation

/-- What a run shows and leaves. -/
structure Run where
  /-- the results with their sources, in plan order -/
  observed : List (String × CommandEvaluation)
  /-- the results source by source -/
  evaluation : Evaluation
  deriving DecidableEq

namespace Run

/-- The number of commands that may run at a time: as many as asked for, and at least one. -/
def width (jobs : Nat) : Nat := max jobs 1

theorem width_pos (jobs : Nat) : 0 < width jobs := by
  unfold width
  omega

/-- The commands of all plans, in plan order. -/
def tasks (plans : List SourcePlan) : List Task :=
  plans.zipIdx.flatMap fun (p, index) => p.plan.entries.map fun entry => ⟨index, p.source, entry⟩

/-- The results of each plan, under its source. Of plans with one source the last counts. -/
def gather (plans : List SourcePlan) (results : List (Task × CommandEvaluation)) : Evaluation :=
  OrderedMap.ofList <| plans.zipIdx.map fun (p, index) =>
    (p.source, (results.filter fun r => r.1.plan = index).map Prod.snd)

/-- Runs plans, `jobs` commands at a time; `schedule` tells which command ends next. -/
def run {m : Type → Type} [Monad m] (execute : Executor m) (jobs : Nat) (schedule : Schedule Task)
    (plans : List SourcePlan) : m Run := do
  let results ← Window.runAll (fun t : Task => execute t.source t.entry) (width_pos jobs) schedule
    (tasks plans)
  return ⟨results.map fun (task, e) => (task.source, e), gather plans results⟩

end Run

end Checkup
