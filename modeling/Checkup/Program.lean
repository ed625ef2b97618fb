import Checkup.Arguments
import Checkup.Config.Load
import Checkup.Config.Validation
import Checkup.History
import Checkup.Install
import Checkup.Report.Commands
import Checkup.Report.Contexts
import Checkup.Report.Evaluations
import Checkup.Report.Installs
import Checkup.Report.Plans
import Checkup.Report.Setups
import Checkup.Run

/-!
# The program

What each request comes to in a workspace. The configuration is loaded for each
request that needs it, so that it can be written where it is broken.

* `Workspace` — where to look and what is there.
* `Reply` — the report of a request, and whether all went well.
* `Program.show` — the requests that only look.
* `Program.run` — runs commands; it starts nothing before everything is planned.
* `Program.respond` — any request.
-/

namespace Checkup

/-- A workspace and its files. Both paths are followed in the tree of the files alone. -/
structure Workspace where
  /-- the path of its directory -/
  path : String := "."
  /-- the configuration file that is named -/
  config : Option String := none
  /-- all files, from the directory in which the program runs -/
  files : FileTree

/-- What a request comes to. -/
structure Reply where
  /-- the report -/
  text : String
  /-- whether all went well -/
  success : Bool := true
  deriving DecidableEq, Repr

/-- Everything a request does. -/
structure Response where
  /-- what is printed before the report -/
  printed : String := ""
  /-- the report, or why there is none -/
  outcome : Except Error Reply
  /-- the files afterwards -/
  files : FileTree

/-- The programs that a run needs. -/
structure Tools (m : Type → Type) where
  /-- evaluates commands -/
  execute : Executor m
  /-- installs commands by an install command -/
  installer : List String → Installer m

namespace Selection

/-- The commands that may run. -/
def filter (s : Selection) : Filter := ⟨s.allow, s.deny⟩

end Selection

namespace Program

/-- The workspace with its directory, which has to be there. -/
def checkWorkspace (w : Workspace) : Except Error Unit :=
  if w.files.hasDirectory w.path then .ok () else .error (.config (.workspaceNotFound w.path))

/-- The configuration of a workspace. -/
def loadConfig (w : Workspace) : Except Error Config := Config.load w.files w.path w.config

/-- The planner of a configuration. -/
def plannerOf (c : Config) : Except Error Planner := c.planner.mapError .config

/-- The history of a workspace. -/
def historyOf (w : Workspace) (c : Config) : History :=
  History.ofWorkspace w.path c.general.historySize

/-- The source under which is planned when there is nothing to check. -/
def workspaceSource : String := "."

/-! ## Looking -/

/-- The plans for sources, or that of the workspace. -/
def plansToShow (c : Config) (p : Planner) (a : PlanArguments) :
    Except Error (List SourcePlan) := do
  let plans ← (c.sources.plans p a.sources a.selection.contexts a.selection.filter).mapError
    .resolve
  match plans with
  | some plans => return plans
  | none =>
    let plan ← (p.plan a.selection.contexts a.selection.filter).mapError .resolve
    return [⟨workspaceSource, plan⟩]

/-- Shows what would run. -/
def showPlan (w : Workspace) (a : PlanArguments) : Except Error String := do
  let c ← loadConfig w
  let plans ← plansToShow c (← plannerOf c) a
  match a.format with
  | .text => return Report.planText plans
  | .json => return Report.planJson plans

/-- Shows all contexts. -/
def showContexts (w : Workspace) : Except Error String := do
  let p ← plannerOf (← loadConfig w)
  return Report.contextList p.registry

/-- Shows a context with its ancestors. -/
def showContext (w : Workspace) (name : String) : Except Error String := do
  let p ← plannerOf (← loadConfig w)
  let context ← (p.registry.resolve name).mapError .resolve
  let ancestors ← (p.registry.ancestors context).mapError .resolve
  return Report.contextDetail context ancestors

/-- Shows the commands that contexts select. -/
def showCommands (w : Workspace) (s : Selection) : Except Error String := do
  let p ← plannerOf (← loadConfig w)
  let plan ← (p.plan s.contexts s.filter).mapError .resolve
  return Report.commandList plan p.catalog

/-- Shows a command under contexts. -/
def showCommand (w : Workspace) (name : String) (contexts : List String) :
    Except Error String := do
  let p ← plannerOf (← loadConfig w)
  let command ← (p.catalog.get name).mapError .resolve
  let entry ← (p.resolveCommand name contexts).mapError .resolve
  let active ← (p.activeContexts contexts).mapError .resolve
  return Report.commandDetail command entry (active.map (·.name))

/-- Shows past runs, newest first. -/
def showHistory (w : Workspace) (head : Option Nat) : Except Error String := do
  let h := historyOf w (← loadConfig w)
  let paths ← h.list w.files
  let runs ← (paths.take (head.getD paths.length)).mapM fun path => do
    return (path, ← History.load w.files path)
  return Report.historyList runs

/-- Shows a past run by its number. -/
def showPastRun (w : Workspace) (number : Nat) : Except Error String := do
  let h := historyOf w (← loadConfig w)
  let path ← h.path w.files (number - 1)
  return Report.historyDetail path (← History.load w.files path)

/-! ## Setting up -/

/-- Writes the configuration of a workspace. One that is there is replaced only by
force: nobody is there to be asked. -/
def setUp (w : Workspace) (force : Bool) : Except Error (String × FileTree) := do
  if w.files.hasPath (Setup.configPath w.path) && !force then .error (.config .noUserInput)
  let (setup, files) ← Setup.write w.files w.path true
  return (Report.setup setup, files)

/-! ## Running -/

/-- What there is to run, or nothing. -/
def plansToRun (w : Workspace) (a : RunArguments) :
    Except Error (Config × Option (List SourcePlan)) := do
  let c ← loadConfig w
  let p ← plannerOf c
  let plans ← (c.sources.plans p a.sources a.selection.contexts a.selection.filter).mapError
    .resolve
  return (c, plans)

/-- How much a run prints. -/
def verbosityOf (a : RunArguments) : Verbosity := if a.silent then .silent else a.verbosity

/-- The report on installations, as far as it is printed. -/
def printedInstalls (v : Verbosity) (reports : List Install.Report) : String :=
  let report := Report.installs reports (v = .verbose)
  if v = .silent || report = "" then "" else report ++ "\n"

/-- The results of a run, as they are printed: each source is named before its first
result in a row. -/
def printedResults (v : Verbosity) (current : Option String) :
    List (String × CommandEvaluation) → String
  | [] => ""
  | (source, e) :: rest =>
    if v = .silent then ""
    else
      (if current = some source then "" else "\n" ++ Report.sourceHeading source ++ "\n") ++
        "\n" ++ Report.commandSection e (if v = .verbose then some source else none) ++
        printedResults v (some source) rest

/-- What is said when there is nothing to check. -/
def nothingToCheck : String :=
  "No sources to check. Pass SOURCES or run \x60statue config init\x60 to configure them."

/-- Runs commands on sources. Nothing is installed or started unless all of it is
planned; what has run is kept in the history. -/
def run {m : Type → Type} [Monad m] (tools : Tools m) (schedule : Schedule Run.Task) (now : Int)
    (w : Workspace) (a : RunArguments) : m Response := do
  match plansToRun w a with
  | .error e => return { outcome := .error e, files := w.files }
  | .ok (_, none) => return { outcome := .ok ⟨nothingToCheck, true⟩, files := w.files }
  | .ok (config, some plans) => do
    let v := verbosityOf a
    let reports ← if a.install then
        Install.installMissing (tools.installer config.general.installCommand)
          (Install.planned plans)
      else pure []
    let result ← Run.run tools.execute a.jobs schedule plans
    let printed := printedInstalls v reports ++ printedResults v none result.observed
    match (historyOf w config).save w.files result.evaluation now with
    | .error e => return { printed, outcome := .error e, files := w.files }
    | .ok (_, files) =>
      let summary := "\n" ++ Report.runSummary result.evaluation
      return { printed, outcome := .ok ⟨summary, result.evaluation.success⟩, files }

/-! ## Any request -/

/-- The response of a request that only looks. -/
def looking (w : Workspace) (text : Except Error String) : Response where
  outcome := text.map (⟨·, true⟩)
  files := w.files

/-- Answers a request in a workspace whose directory is there. -/
def answer {m : Type → Type} [Monad m] (tools : Tools m) (schedule : Schedule Run.Task)
    (now : Int) (w : Workspace) : Request → m Response
  | .run a => run tools schedule now w a
  | .plan a => return looking w (showPlan w a)
  | .contextList => return looking w (showContexts w)
  | .contextShow name => return looking w (showContext w name)
  | .commandList s => return looking w (showCommands w s)
  | .commandShow name contexts => return looking w (showCommand w name contexts)
  | .historyList head => return looking w (showHistory w head)
  | .historyShow number => return looking w (showPastRun w number)
  | .configInit force =>
    match setUp w force with
    | .error e => return { outcome := .error e, files := w.files }
    | .ok (text, files) => return { outcome := .ok ⟨text, true⟩, files }

/-- Answers a request in a workspace. -/
def respond {m : Type → Type} [Monad m] (tools : Tools m) (schedule : Schedule Run.Task)
    (now : Int) (w : Workspace) (request : Request) : m Response :=
  match checkWorkspace w with
  | .error e => return { outcome := .error e, files := w.files }
  | .ok () => answer tools schedule now w request

end Program

end Checkup
