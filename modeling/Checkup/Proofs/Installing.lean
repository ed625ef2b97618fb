import Checkup.Proofs.Selection
import Checkup.Proofs.WholeRuns

/-!
# Installing one by one

What installing asks of an installer in a world, where every answer may hang on what has been
installed before:

* `Install.Visit`, `Install.Visited` — what is asked about one command, and how that moves the
  world.
* `Install.Visits` — visits one after the other, each in the world that the one before left;
  installing is made up of them (`installMissing_eq_iff`).
* `Install.installs_one_by_one` — which commands are visited, what is asked, and what is reported.
* `Program.run_installs_first` — a run asks nothing else before it executes commands.
-/

namespace Checkup

variable {σ : Type}

open Program in
/-- An installer of a world, with a record of its calls. -/
def Installer.recorded (i : Installer (StateM σ)) : Installer (StateM (σ × List Call)) where
  isInstalled command := noted (i.isInstalled command) (.look command)
  install command := noted (i.install command) (.install command)

/-- Tools with a record have installers with a record. -/
theorem Tools.recorded_installer (tools : Tools (StateM σ)) (installCommand : List String) :
    tools.recorded.installer installCommand = (tools.installer installCommand).recorded := rfl

/-- The command that a call looks for. -/
def Program.Call.looked? : Program.Call → Option String
  | .look command _ => some command
  | _ => none

namespace Install

open Program (Call)

/-! ## One command -/

/-- What an installer has been asked about a command. -/
structure Visit where
  /-- the command -/
  command : String
  /-- how its installation went; there is none if the command was there -/
  installed : Option (Except String Unit)

namespace Visit

/-- What is reported. -/
def report (v : Visit) : Report where
  command := v.command
  outcome :=
    match v.installed with
    | none => .already
    | some (.ok ()) => .installed
    | some (.error reason) => .failed reason

/-- What is asked: whether the command is there, and then for its installation if it is not. -/
def calls (v : Visit) : List Call :=
  match v.installed with
  | none => [.look v.command true]
  | some answer => [.look v.command false, .install v.command answer]

/-- A command is looked for once. -/
theorem looked_calls (v : Visit) : v.calls.filterMap Call.looked? = [v.command] := by
  obtain ⟨command, installed⟩ := v
  cases installed <;> rfl

end Visit

/-- A visit moves the world of an installer. -/
inductive Visited (i : Installer (StateM σ)) : σ → Visit → σ → Prop
  /-- the command is there -/
  | there {command : String} {s s' : σ} :
      i.isInstalled command s = (true, s') → Visited i s ⟨command, none⟩ s'
  /-- the command is not there, and its installation is answered -/
  | missing {command : String} {answer : Except String Unit} {s s' s'' : σ} :
      i.isInstalled command s = (false, s') → i.install command s' = (answer, s'') →
      Visited i s ⟨command, some answer⟩ s''

variable {i : Installer (StateM σ)} {s s' s'' : σ} {v : Visit}

/-- Every command can be visited. -/
theorem exists_visited (i : Installer (StateM σ)) (command : String) (s : σ) :
    ∃ v s', v.command = command ∧ Visited i s v s' := by
  cases hlook : i.isInstalled command s with
  | mk there looked =>
    cases there with
    | true => exact ⟨⟨command, none⟩, looked, rfl, .there hlook⟩
    | false => exact ⟨⟨command, some (i.install command looked).1⟩, _, rfl, .missing hlook rfl⟩

/-- Installing a command is a visit. -/
theorem Visited.installOne_eq (h : Visited i s v s') :
    installOne i v.command s = (v.report, s') := by
  rw [installOne]
  dsimp only [bind, StateT.bind]
  cases h with
  | there hlook =>
    rw [hlook]
    rfl
  | @missing command answer _ _ _ hlook hinstall =>
    rw [hlook]
    dsimp only
    rw [if_neg Bool.false_ne_true, StateT.bind, hinstall]
    cases answer <;> rfl

/-- With a record a visit notes its calls. -/
theorem Visited.recorded (h : Visited i s v s') (calls : List Call) :
    Visited i.recorded (s, calls) v (s', calls ++ v.calls) := by
  cases h with
  | there hlook => exact .there (by simp [Installer.recorded, Program.noted, hlook, Visit.calls])
  | @missing command answer s s' _ hlook hinstall =>
    have hlooked : i.recorded.isInstalled command (s, calls) =
        (false, s', calls ++ [.look command false]) := by
      simp [Installer.recorded, Program.noted, hlook]
    refine .missing hlooked ?_
    simp [Installer.recorded, Program.noted, hinstall, Visit.calls]

/-! ## One after the other -/

/-- Visits one after the other. -/
inductive Visits (i : Installer (StateM σ)) : σ → List Visit → σ → Prop
  /-- there is none -/
  | done {s : σ} : Visits i s [] s
  /-- the others are made in the world that the first one leaves -/
  | next {s s' s'' : σ} {v : Visit} {visits : List Visit} :
      Visited i s v s' → Visits i s' visits s'' → Visits i s (v :: visits) s''

variable {visits : List Visit} {commands : List String} {reports : List Report}

/-- All commands are visited, whatever becomes of those before. -/
theorem exists_visits (i : Installer (StateM σ)) (commands : List String) (s : σ) :
    ∃ visits s', visits.map (·.command) = commands ∧ Visits i s visits s' := by
  induction commands generalizing s with
  | nil => exact ⟨[], s, rfl, .done⟩
  | cons command rest ih =>
    obtain ⟨v, s', rfl, hv⟩ := exists_visited i command s
    obtain ⟨visits, s'', rfl, hvisits⟩ := ih s'
    exact ⟨v :: visits, s'', rfl, .next hv hvisits⟩

/-- Installing reports on all visits. -/
theorem Visits.installMissing_eq (h : Visits i s visits s') :
    installMissing i (visits.map (·.command)) s = (visits.map Visit.report, s') := by
  induction h with
  | done => rfl
  | next hv _ ih =>
    rw [installMissing] at ih
    rw [List.map_cons, installMissing, List.mapM_cons]
    dsimp only [bind, StateT.bind]
    rw [hv.installOne_eq]
    dsimp only
    rw [ih]
    rfl

/-- With a record visits note their calls, in order. -/
theorem Visits.recorded (h : Visits i s visits s') (calls : List Call) :
    Visits i.recorded (s, calls) visits (s', calls ++ visits.flatMap Visit.calls) := by
  induction h generalizing calls with
  | done =>
    rw [List.flatMap_nil, List.append_nil]
    exact .done
  | next hv _ ih =>
    rw [List.flatMap_cons, ← List.append_assoc]
    exact .next (hv.recorded calls) (ih _)

/-- **Installing is visiting**: one command after the other, each in the world that the visit
before has left. -/
theorem installMissing_eq_iff : installMissing i commands s = (reports, s') ↔
    ∃ visits, Visits i s visits s' ∧ visits.map (·.command) = commands ∧
      visits.map Visit.report = reports := by
  constructor
  · intro h
    obtain ⟨visits, s'', rfl, hvisits⟩ := exists_visits i commands s
    rw [hvisits.installMissing_eq, Prod.mk.injEq] at h
    obtain ⟨hreports, rfl⟩ := h
    exact ⟨visits, hvisits, rfl, hreports⟩
  · rintro ⟨visits, hvisits, rfl, rfl⟩
    exact hvisits.installMissing_eq

/-- One installation brings another command along, and one fails. -/
example :
    let bringing : Installer (StateM (List String)) :=
      { isInstalled := fun command there => (command ∈ there, there)
        install := fun command there =>
          if command = "mypy" then (.error "no network", there)
          else (.ok (), command :: "flake8" :: there) }
    installMissing bringing ["pylint", "mypy", "flake8"] [] =
      ([⟨"pylint", .installed⟩, ⟨"mypy", .failed "no network"⟩, ⟨"flake8", .already⟩],
        ["pylint", "flake8"]) := rfl

/-- Every visit looks for its command once. -/
theorem looked_flatMap_calls (visits : List Visit) :
    (visits.flatMap Visit.calls).filterMap Call.looked? = visits.map (·.command) := by
  simp only [List.filterMap_flatMap, Visit.looked_calls, ← List.map_eq_flatMap]

/-! ## All planned commands -/

/-- Each planned command is there once, where it is planned first. -/
theorem planned_eq (plans : List SourcePlan) :
    planned plans = (plans.flatMap fun p => p.plan.entries.map (·.command)).eraseDups :=
  distinctBy_eq_eraseDups fun _ _ _ _ h => h

theorem nodup_planned (plans : List SourcePlan) : (planned plans).Nodup :=
  pairwise_distinctBy id _

/-- **Commands are installed one by one**, whatever is planned, and however an installer answers
in its world.

* Those that are planned anywhere are visited, each once, in the order in which they are first
  planned.
* A visit looks for its command once, and installs it just if it is not there at that moment.
  The next visit finds the world that this one leaves.
* Nothing else is asked of the installer.
* There is one report for each, in the same order, with what the answers say. A failure stops
  nothing. -/
theorem installs_one_by_one (plans : List SourcePlan) (i : Installer (StateM σ)) (s : σ) :
    let commands := (plans.flatMap fun p => p.plan.entries.map (·.command)).eraseDups
    commands.Nodup ∧
    ∃ visits s', Visits i s visits s' ∧ visits.map (·.command) = commands ∧
      installMissing i (planned plans) s = (visits.map Visit.report, s') ∧
      ∃ calls, installMissing i.recorded (planned plans) (s, []) =
          (visits.map Visit.report, s', calls) ∧
        calls = visits.flatMap Visit.calls ∧ calls.filterMap Call.looked? = commands := by
  intro commands
  have hplanned : planned plans = commands := planned_eq plans
  obtain ⟨visits, s', hcommands, hvisits⟩ := exists_visits i commands s
  rw [hplanned]
  refine ⟨hplanned ▸ nodup_planned plans, visits, s', hvisits, hcommands, ?_, _, ?_, rfl, ?_⟩
  · exact installMissing_eq_iff.mpr ⟨visits, hvisits, hcommands, rfl⟩
  · exact installMissing_eq_iff.mpr ⟨visits, hvisits.recorded [], hcommands, rfl⟩
  · rw [looked_flatMap_calls, hcommands]

end Install

/-- A run that installs visits all planned commands before it executes any, and prints what it
reports on them before the results. -/
theorem Program.run_installs_first (tools : Tools (StateM σ)) (schedule : Schedule Run.Task)
    (now : Int) {w : Workspace} {a : RunArguments} {c : Config} {plans : List SourcePlan}
    (hplans : plansToRun w a = .ok (c, some plans)) (hinstall : a.install = true) (s : σ) :
    ∃ visits s',
      Install.Visits (tools.installer c.general.installCommand) s visits s' ∧
      visits.map (·.command) = Install.planned plans ∧
      run tools.recorded schedule now w a (s, []) =
        afterInstalls tools.recorded schedule now w c a plans (visits.map Install.Visit.report)
          (s', visits.flatMap Install.Visit.calls) := by
  obtain ⟨visits, s', hcommands, hvisits⟩ :=
    Install.exists_visits (tools.installer c.general.installCommand) (Install.planned plans) s
  refine ⟨visits, s', hvisits, hcommands, ?_⟩
  have hinstalls := (hvisits.recorded []).installMissing_eq
  rw [hcommands, ← Tools.recorded_installer] at hinstalls
  rw [run_eq_afterInstalls tools.recorded schedule now hplans, if_pos hinstall]
  dsimp only [bind, StateT.bind]
  rw [hinstalls, List.nil_append]

end Checkup
