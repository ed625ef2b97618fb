import Checkup.Program.CommandLine
import Checkup.Proofs.BuiltIn
import Checkup.Proofs.Planning
import Checkup.Proofs.Running

/-!
# Whole runs

A request to run is planned for all of its sources before anything is installed or started:

* `Program.Fails` — what makes planning fail, with the error.
* `Program.Call`, `Tools.recorded` — tools in a world, with a record of their calls.
* `Program.run_plans_first` — a request that fails to be planned, or has nothing to check, has
  no effects. Any other calls the installer, then the executor once for every command of the
  plans that are shown; the results make up the evaluation that is reported and stored.
-/

namespace Checkup

/-! ## What has run -/

namespace Run

/-- What has run: plans with their commands, each with its answer. -/
abbrev Log := List (SourcePlan × List (Plan.Entry × CommandEvaluation))

/-- Whether all that was planned has run. -/
structure Covers (plans : List SourcePlan) (ran : Log) : Prop where
  /-- every plan is there, in order -/
  plans_eq : ran.map Prod.fst = plans
  /-- every command of a plan has run once, in order -/
  entries_eq : ∀ r ∈ ran, r.2.map Prod.fst = r.1.plan.entries

/-- The results of a numbered plan. -/
def resultsOfRan (r : (SourcePlan × List (Plan.Entry × CommandEvaluation)) × Nat) :
    List (Task × CommandEvaluation) :=
  r.1.2.map fun x => (⟨r.2, r.1.1.source, x.1⟩, x.2)

/-- The results of all tasks are those of the plans, command by command. -/
theorem exists_covers (plans : List SourcePlan) :
    ∀ (first : Nat) (results : List (Task × CommandEvaluation)),
      results.map Prod.fst = (plans.zipIdx first).flatMap (fun (p, index) =>
        p.plan.entries.map fun entry => ⟨index, p.source, entry⟩) →
      ∃ ran : Log, Covers plans ran ∧ results = (ran.zipIdx first).flatMap resultsOfRan := by
  induction plans with
  | nil =>
    intro first results h
    exact ⟨[], ⟨rfl, nofun⟩, List.map_eq_nil_iff.mp h⟩
  | cons p rest ih =>
    intro first results h
    rw [List.zipIdx_cons, List.flatMap_cons, List.map_eq_append_iff] at h
    obtain ⟨own, others, rfl, hown, hothers⟩ := h
    dsimp only at hown
    obtain ⟨ran, hcovers, rfl⟩ := ih (first + 1) others hothers
    refine ⟨(p, own.map fun r => (r.1.entry, r.2)) :: ran, ⟨?_, ?_⟩, ?_⟩
    · rw [List.map_cons, hcovers.plans_eq]
    · refine List.forall_mem_cons.mpr ⟨?_, hcovers.entries_eq⟩
      have hentries := congrArg (List.map Task.entry) hown
      simpa [List.map_map, Function.comp_def] using hentries
    · rw [List.zipIdx_cons, List.flatMap_cons]
      refine congrArg (· ++ _) ?_
      -- in the results of one plan a task is told by its command
      rw [resultsOfRan, List.map_map]
      refine (List.map_id own).symm.trans (List.map_congr_left fun r hr => ?_)
      have htask : r.1 ∈ p.plan.entries.map fun entry => (⟨first, p.source, entry⟩ : Task) :=
        hown ▸ List.mem_map.mpr ⟨r, hr, rfl⟩
      obtain ⟨entry, -, htask⟩ := List.mem_map.mp htask
      exact Prod.ext (by simp [← htask]) rfl

/-- What is gathered of the results of plans are those of each, under its source. -/
theorem gather_of_covers {plans : List SourcePlan} {ran : Log} (h : Covers plans ran) :
    gather plans (ran.zipIdx.flatMap resultsOfRan) =
      OrderedMap.ofList (ran.map fun r => (r.1.source, r.2.map Prod.snd)) := by
  rw [gather, ← h.plans_eq, List.zipIdx_map, List.map_map, ← map_zipIdx_fst _ ran 0]
  refine congrArg OrderedMap.ofList (List.map_congr_left fun r hr => ?_)
  have hnumber : ∀ x, ∀ y ∈ resultsOfRan x, y.1.plan = x.2 := by
    intro x y hy
    obtain ⟨z, -, rfl⟩ := List.mem_map.mp hy
    rfl
  have hown := filter_flatMap_of_mem (fun x : Task × CommandEvaluation => x.1.plan) hnumber hr
  simp only [Function.comp_apply, Prod.map_fst, Prod.map_snd, id_eq, hown]
  rw [resultsOfRan, List.map_map]
  rfl

/-- The calls for the results of plans, plan by plan. -/
theorem map_resultsOfRan {γ : Type} (call : String → Plan.Entry → CommandEvaluation → γ)
    (ran : Log) :
    (ran.zipIdx.flatMap resultsOfRan).map (fun x => call x.1.source x.1.entry x.2) =
      ran.flatMap fun r => r.2.map fun x => call r.1.source x.1 x.2 := by
  have hran : ran.zipIdx.map Prod.fst = ran := List.zipIdx_map_fst 0 ran
  conv_rhs => rw [← hran, List.flatMap_map]
  rw [List.map_flatMap]
  refine List.flatMap_congr fun r _ => ?_
  rw [resultsOfRan, List.map_map]
  rfl

end Run

namespace Program

variable {w : Workspace} {a : RunArguments} {c : Config} {p : Planner} {e : Error}

/-! ## Planning -/

/-- What is asked of the planner for a run. -/
def asked (c : Config) (a : RunArguments) : List Sources.Ask :=
  c.sources.asks a.sources a.selection.contexts ⟨a.selection.allow, a.selection.deny⟩

/-- What makes planning fail, with the error. -/
inductive Fails (w : Workspace) (a : RunArguments) : Error → Prop
  /-- the configuration cannot be loaded -/
  | load {e : Error} : loadConfig w = .error e → Fails w a e
  /-- it has problems -/
  | planner {c : Config} {e : Error} :
      loadConfig w = .ok c → plannerOf c = .error e → Fails w a e
  /-- a source, the first one such, cannot be planned -/
  | source {c : Config} {p : Planner} {before after : List Sources.Ask} {ask : Sources.Ask}
      {e : ResolveError} :
      loadConfig w = .ok c → plannerOf c = .ok p → asked c a = before ++ ask :: after →
      (∀ b ∈ before, ∃ plan, p.answer b = .ok plan) → p.answer ask = .error e →
      Fails w a (.resolve e)

/-- What is done with the planner of a workspace. -/
theorem bind_planner {α : Type} (hload : loadConfig w = .ok c) (hplanner : plannerOf c = .ok p)
    (next : Config → Planner → Except Error α) :
    (do let c ← loadConfig w; let p ← plannerOf c; next c p) = next c p := by
  rw [hload]
  change (plannerOf c >>= _) = _
  rw [hplanner]
  rfl

/-- What there is to run, with the configuration and its planner. -/
theorem plansToRun_eq (hload : loadConfig w = .ok c) (hplanner : plannerOf c = .ok p) :
    plansToRun w a =
      if (asked c a).isEmpty then .ok (c, none)
      else (((asked c a).mapM p.answer).mapError Error.resolve).map
        fun plans => (c, some plans) := by
  rw [plansToRun, bind_planner hload hplanner, Sources.plans_eq, Selection.filter, ← asked]
  split
  · rfl
  · cases (asked c a).mapM p.answer <;> rfl

/-- Planning fails as it is said to. -/
theorem plansToRun_of_fails (h : Fails w a e) : plansToRun w a = .error e := by
  cases h with
  | load hload =>
    rw [plansToRun, hload]
    rfl
  | planner hload hplanner =>
    rw [plansToRun, hload]
    change (plannerOf _ >>= _) = _
    rw [hplanner]
    rfl
  | @source c p before after ask e hload hplanner hasked hbefore hask =>
    rw [plansToRun_eq hload hplanner, hasked, mapM_eq_error hbefore hask]
    simp [Except.mapError, Except.map]

/-- If nothing fails, everything that is asked for is planned. -/
theorem exists_plans (h : ∀ e, ¬ Fails w a e) :
    ∃ c p plans, loadConfig w = .ok c ∧ plannerOf c = .ok p ∧
      (asked c a).mapM p.answer = .ok plans := by
  cases hload : loadConfig w with
  | error e => exact absurd (.load hload) (h e)
  | ok c =>
    cases hplanner : plannerOf c with
    | error e => exact absurd (.planner hload hplanner) (h e)
    | ok p =>
      rcases mapM_eq_ok_or_error p.answer (asked c a) with
        ⟨plans, hplans⟩ | ⟨before, ask, after, e, hasked, hbefore, hask⟩
      · exact ⟨c, p, plans, rfl, hplanner, hplans⟩
      · exact absurd (.source hload hplanner hasked hbefore hask) (h (.resolve e))

/-- Each format of the plans that are shown. -/
def planReport (format : PlanFormat) (plans : List SourcePlan) : String :=
  match format with
  | .text => Report.planText plans
  | .json => Report.planJson plans

/-- What is shown are the plans in their format. -/
theorem showPlan_eq_map (hload : loadConfig w = .ok c) (hplanner : plannerOf c = .ok p)
    (a : PlanArguments) : showPlan w a = (plansToShow c p a).map (planReport a.format) := by
  rw [showPlan, bind_planner hload hplanner]
  cases plansToShow c p a <;> cases a.format <;> rfl

/-- What would run is shown. -/
theorem showPlan_eq {plans : List SourcePlan} (hload : loadConfig w = .ok c)
    (hplanner : plannerOf c = .ok p) (hasked : (asked c a).isEmpty = false)
    (hplans : (asked c a).mapM p.answer = .ok plans) (format : PlanFormat) :
    showPlan w ⟨a.sources, a.selection, format⟩ = .ok (planReport format plans) := by
  have hshown : plansToShow c p ⟨a.sources, a.selection, format⟩ = .ok plans := by
    rw [plansToShow, Sources.plans_eq, Selection.filter, ← asked, hasked, hplans]
    rfl
  rw [showPlan_eq_map hload hplanner, hshown]
  rfl

/-! ## Records of calls -/

/-- A call of the tools, with its answer. -/
inductive Call where
  /-- a look for a command -/
  | look (command : String) (answer : Bool)
  /-- an installation of a command -/
  | install (command : String) (answer : Except String Unit)
  /-- an evaluation of a command on a source -/
  | execute (source : String) (entry : Plan.Entry) (answer : CommandEvaluation)

/-- Whether a call is one of the installer. -/
def Call.IsInstaller : Call → Prop
  | .look .. | .install .. => True
  | .execute .. => False

variable {σ α β : Type}

/-- A step of a world whose answer is noted as a call. -/
def noted (x : StateM σ α) (call : α → Call) : StateM (σ × List Call) α := fun (s, calls) =>
  let (answer, s) := x s
  (answer, s, calls ++ [call answer])

end Program

open Program in
/-- Tools of a world, with a record of their calls. -/
def Tools.recorded {σ : Type} (tools : Tools (StateM σ)) : Tools (StateM (σ × List Call)) where
  execute source entry := noted (tools.execute source entry) (.execute source entry)
  installer installCommand :=
    let installer := tools.installer installCommand
    { isInstalled := fun command => noted (installer.isInstalled command) (.look command)
      install := fun command => noted (installer.install command) (.install command) }

namespace Program

/-- A program with a record does what the one without does, and notes calls. -/
def Records {σ α : Type} (x : StateM σ α) (x' : StateM (σ × List Call) α)
    (P : α → List Call → Prop) : Prop :=
  ∀ s calls, ∃ new, x' (s, calls) = ((x s).1, (x s).2, calls ++ new) ∧ P (x s).1 new

namespace Records

variable {x : StateM σ α} {x' : StateM (σ × List Call) α} {P : α → List Call → Prop}

theorem noted (x : StateM σ α) (call : α → Call) :
    Records x (noted x call) fun answer new => new = [call answer] :=
  fun _ _ => ⟨_, rfl, rfl⟩

theorem pure {y : α} (h : P y []) :
    Records (Pure.pure y : StateM σ α) (Pure.pure y) P :=
  fun s calls => ⟨[], by rw [List.append_nil]; rfl, h⟩

theorem bind {f : α → StateM σ β} {f' : α → StateM (σ × List Call) β} {Q : β → List Call → Prop}
    (hx : Records x x' P)
    (hf : ∀ y new, P y new → Records (f y) (f' y) fun z more => Q z (new ++ more)) :
    Records (x >>= f) (x' >>= f') Q := by
  intro s calls
  obtain ⟨new, hnew, hy⟩ := hx s calls
  obtain ⟨more, hmore, hz⟩ := hf _ new hy (x s).2 (calls ++ new)
  refine ⟨new ++ more, ?_, hz⟩
  change (match x' (s, calls) with | (y, s) => f' y s) = _
  rw [hnew, ← List.append_assoc]
  exact hmore

/-- A traversal notes the calls of its steps, one after the other. -/
theorem mapM {f : α → StateM σ β} {f' : α → StateM (σ × List Call) β}
    {R : α → β → List Call → Prop} (hf : ∀ y, Records (f y) (f' y) (R y)) (l : List α) :
    Records (l.mapM f) (l.mapM f') fun zs new => ∃ steps : List (β × List Call),
      List.Forall₂ (fun y step => R y step.1 step.2) l steps ∧
        zs = steps.map Prod.fst ∧ new = steps.flatMap Prod.snd := by
  induction l with
  | nil => exact .pure ⟨[], .nil, rfl, rfl⟩
  | cons y rest ih =>
    rw [List.mapM_cons, List.mapM_cons]
    refine (hf y).bind fun z new hz => ih.bind fun zs more hzs => .pure ?_
    obtain ⟨steps, hsteps, rfl, rfl⟩ := hzs
    exact ⟨(z, new) :: steps, .cons hz hsteps, rfl, by simp⟩

end Records

/-- Installing calls the installer and nothing else. -/
theorem records_installMissing (tools : Tools (StateM σ)) (installCommand commands : List String) :
    Records (Install.installMissing (tools.installer installCommand) commands)
      (Install.installMissing (tools.recorded.installer installCommand) commands)
      fun _ new => ∀ call ∈ new, call.IsInstaller := by
  have hone : ∀ command, Records (Install.installOne (tools.installer installCommand) command)
      (Install.installOne (tools.recorded.installer installCommand) command)
      fun _ new => ∀ call ∈ new, call.IsInstaller := by
    intro command
    refine (Records.noted _ _).bind fun there looked hlooked => ?_
    cases there with
    | true => exact .pure (by simp [hlooked, Call.IsInstaller])
    | false =>
      refine (Records.noted _ _).bind fun answer installed hinstalled => ?_
      cases answer <;> exact .pure (by simp [hlooked, hinstalled, Call.IsInstaller])
  intro s calls
  obtain ⟨new, hnew, steps, hsteps, -, rfl⟩ := Records.mapM hone commands s calls
  refine ⟨_, hnew, fun call hcall => ?_⟩
  obtain ⟨step, hstep, hcall⟩ := List.mem_flatMap.mp hcall
  obtain ⟨command, -, hall⟩ : ∃ command ∈ commands, ∀ call ∈ step.2, call.IsInstaller :=
    exists_of_mem_forall₂ hsteps hstep
  exact hall call hcall

/-- Running plans calls the executor once for every command, in plan order. -/
theorem records_runTasks (tools : Tools (StateM σ)) (jobs : Nat) (schedule : Schedule Run.Task)
    (plans : List SourcePlan) :
    Records (Run.run tools.execute jobs schedule plans)
      (Run.run tools.recorded.execute jobs schedule plans) fun r new =>
        ∃ results : List (Run.Task × CommandEvaluation),
          results.map Prod.fst = Run.tasks plans ∧ r.evaluation = Run.gather plans results ∧
            new = results.map fun x => .execute x.1.source x.1.entry x.2 := by
  have hone : ∀ t : Run.Task, Records (do return (t, ← tools.execute t.source t.entry))
      (do return (t, ← tools.recorded.execute t.source t.entry)) fun x new =>
        x.1 = t ∧ new = [.execute t.source t.entry x.2] := fun t =>
    (Records.noted _ _).bind fun answer new hnew => .pure ⟨rfl, by rw [hnew, List.append_nil]⟩
  rw [Run.run_eq, Run.run_eq]
  refine (Records.mapM hone (Run.tasks plans)).bind fun results new hnew => .pure ?_
  obtain ⟨steps, hsteps, rfl, rfl⟩ := hnew
  suffices h : (steps.map Prod.fst).map Prod.fst = Run.tasks plans ∧
      steps.flatMap Prod.snd =
        (steps.map Prod.fst).map fun x => .execute x.1.source x.1.entry x.2 from
    ⟨_, h.1, rfl, (List.append_nil _).trans h.2⟩
  generalize Run.tasks plans = tasks at hsteps ⊢
  induction hsteps with
  | nil => exact ⟨rfl, rfl⟩
  | cons hstep _ ih =>
    refine ⟨?_, ?_⟩
    · rw [List.map_cons, List.map_cons, ih.1, hstep.1]
    · rw [List.flatMap_cons, hstep.2, ih.2, ← hstep.1]
      rfl

/-- With distinct sources the evaluation has the answers for each, in plan order. -/
theorem records_run (tools : Tools (StateM σ)) (jobs : Nat) (schedule : Schedule Run.Task)
    {plans : List SourcePlan} (hnodup : (plans.map (·.source)).Nodup) :
    Records (Run.run tools.execute jobs schedule plans)
      (Run.run tools.recorded.execute jobs schedule plans) fun r new =>
        ∃ ran, Run.Covers plans ran ∧
          r.evaluation.entries = ran.map (fun x => (x.1.source, x.2.map Prod.snd)) ∧
          new = ran.flatMap fun x => x.2.map fun y => .execute x.1.source y.1 y.2 := by
  intro s calls
  obtain ⟨new, hnew, results, htasks, hevaluation, rfl⟩ :=
    records_runTasks tools jobs schedule plans s calls
  obtain ⟨ran, hcovers, rfl⟩ := Run.exists_covers plans 0 results htasks
  refine ⟨_, hnew, ran, hcovers, ?_, Run.map_resultsOfRan Call.execute ran⟩
  rw [hevaluation, Run.gather_of_covers hcovers]
  refine OrderedMap.entries_ofList ?_
  rw [← hcovers.plans_eq, List.map_map] at hnodup
  rwa [List.map_map]

/-! ## Whole runs -/

/-- How a run ends with its evaluation: that is reported, decides the exit status, and is
stored; unless it cannot be stored. -/
def Concludes (w : Workspace) (c : Config) (now : Int) (evaluation : Evaluation) (r : Response) :
    Prop :=
  match (historyOf w c).save w.files evaluation now with
  | .error e => r.outcome = .error e ∧ r.files = w.files
  | .ok (_, files) =>
    r.outcome = .ok ⟨"\n" ++ Report.runSummary evaluation, evaluation.success⟩ ∧
      r.files = files ∧
      (CommandLine.finish r).exitCode = if evaluation.success then 0 else 1

/-- A run after its installations. -/
def afterInstalls {m : Type → Type} [Monad m] (tools : Tools m) (schedule : Schedule Run.Task)
    (now : Int) (w : Workspace) (c : Config) (a : RunArguments) (plans : List SourcePlan)
    (reports : List Install.Report) : m Response := do
  let result ← Run.run tools.execute a.jobs schedule plans
  let printed := printedInstalls (verbosityOf a) reports ++
    printedResults (verbosityOf a) none result.observed
  match (historyOf w c).save w.files result.evaluation now with
  | .error e => return { printed, outcome := .error e, files := w.files }
  | .ok (_, files) =>
    let summary := "\n" ++ Report.runSummary result.evaluation
    return { printed, outcome := .ok ⟨summary, result.evaluation.success⟩, files }

/-- With plans a run installs, if that is asked for, and goes on. -/
theorem run_eq_afterInstalls {m : Type → Type} [Monad m] (tools : Tools m)
    (schedule : Schedule Run.Task) (now : Int) {plans : List SourcePlan}
    (hplans : plansToRun w a = .ok (c, some plans)) :
    run tools schedule now w a =
      (if a.install then Install.installMissing (tools.installer c.general.installCommand)
        (Install.planned plans) else pure []) >>= afterInstalls tools schedule now w c a plans := by
  rw [run, hplans]
  cases a.install <;> rfl

/-- The rest of a run executes and concludes. -/
theorem records_afterInstalls (tools : Tools (StateM σ)) (schedule : Schedule Run.Task) (now : Int)
    {plans : List SourcePlan} (hnodup : (plans.map (·.source)).Nodup)
    (reports : List Install.Report) :
    Records (afterInstalls tools schedule now w c a plans reports)
      (afterInstalls tools.recorded schedule now w c a plans reports) fun r new =>
        ∃ ran evaluation, Run.Covers plans ran ∧
          evaluation.entries = ran.map (fun x => (x.1.source, x.2.map Prod.snd)) ∧
          Concludes w c now evaluation r ∧
          new = ran.flatMap fun x => x.2.map fun y => .execute x.1.source y.1 y.2 := by
  refine (records_run tools a.jobs schedule hnodup).bind fun result calls hresult => ?_
  obtain ⟨ran, hcovers, hentries, rfl⟩ := hresult
  dsimp only
  cases hs : (historyOf w c).save w.files result.evaluation now with
  | error e =>
    refine .pure ⟨ran, result.evaluation, hcovers, hentries, ?_, List.append_nil _⟩
    rw [Concludes, hs]
    exact ⟨rfl, rfl⟩
  | ok saved =>
    refine .pure ⟨ran, result.evaluation, hcovers, hentries, ?_, List.append_nil _⟩
    rw [Concludes, hs]
    exact ⟨rfl, rfl, rfl⟩

/-- A run with plans installs, executes and concludes. -/
theorem records_plans (tools : Tools (StateM σ)) (schedule : Schedule Run.Task) (now : Int)
    {plans : List SourcePlan} (hplans : plansToRun w a = .ok (c, some plans))
    (hnodup : (plans.map (·.source)).Nodup) :
    Records (run tools schedule now w a) (run tools.recorded schedule now w a) fun r new =>
      ∃ installs ran evaluation, (∀ call ∈ installs, call.IsInstaller) ∧
        (a.install = false → installs = []) ∧ Run.Covers plans ran ∧
        evaluation.entries = ran.map (fun x => (x.1.source, x.2.map Prod.snd)) ∧
        Concludes w c now evaluation r ∧
        new = installs ++ ran.flatMap fun x => x.2.map fun y => .execute x.1.source y.1 y.2 := by
  have hinstalls : Records
      (if a.install then Install.installMissing (tools.installer c.general.installCommand)
        (Install.planned plans) else pure [])
      (if a.install then Install.installMissing (tools.recorded.installer c.general.installCommand)
        (Install.planned plans) else pure [])
      fun _ new => (∀ call ∈ new, call.IsInstaller) ∧ (a.install = false → new = []) := by
    cases a.install with
    | true =>
      intro s calls
      obtain ⟨new, hnew, hall⟩ := records_installMissing tools c.general.installCommand
        (Install.planned plans) s calls
      exact ⟨new, hnew, hall, nofun⟩
    | false => exact .pure ⟨nofun, fun _ => rfl⟩
  rw [run_eq_afterInstalls tools schedule now hplans,
    run_eq_afterInstalls tools.recorded schedule now hplans]
  refine hinstalls.bind fun reports installs hinstalls s calls => ?_
  obtain ⟨new, hnew, ran, evaluation, hcovers, hentries, hconcludes, rfl⟩ :=
    records_afterInstalls tools schedule now hnodup reports s calls
  exact ⟨_, hnew, installs, ran, evaluation, hinstalls.1, hinstalls.2, hcovers, hentries,
    hconcludes, rfl⟩

/-- **A run is planned as a whole, then carried out as a whole.** If anything fails before all
sources are planned, or nothing is to be checked, the run comes to that and calls no tool, in
whatever monad. Otherwise the plans are those that are shown for the same sources and
selection; the installer is called first, if that is asked for; then the executor is called
once for every command of every plan; and the answers, under their sources and in plan order,
are the evaluation with which the run concludes. Records of the calls do not change the run. -/
theorem run_plans_first (w : Workspace) (a : RunArguments) (schedule : Schedule Run.Task)
    (now : Int) :
    (∀ e, Fails w a e → ∀ {m : Type → Type} [Monad m] (tools : Tools m),
      run tools schedule now w a = pure { outcome := .error e, files := w.files }) ∧
    ((∀ e, ¬ Fails w a e) → ∃ c p, loadConfig w = .ok c ∧ plannerOf c = .ok p ∧
      (asked c a = [] → ∀ {m : Type → Type} [Monad m] (tools : Tools m),
        run tools schedule now w a =
          pure { outcome := .ok ⟨nothingToCheck, true⟩, files := w.files }) ∧
      (asked c a ≠ [] → ∃ plans,
        List.Forall₂ (fun ask plan => p.answer ask = .ok plan) (asked c a) plans ∧
        (plans.map (·.source)).Nodup ∧
        (∀ format, showPlan w ⟨a.sources, a.selection, format⟩ =
          .ok (planReport format plans)) ∧
        ∀ {σ : Type} (tools : Tools (StateM σ)) (s : σ), ∃ (r : Response) (s' : σ)
          (installs : List Call) (ran : Run.Log) (evaluation : Evaluation),
          run tools schedule now w a s = (r, s') ∧
          run tools.recorded schedule now w a (s, []) = (r, s', installs ++
            ran.flatMap fun x => x.2.map fun y => .execute x.1.source y.1 y.2) ∧
          (∀ call ∈ installs, call.IsInstaller) ∧ (a.install = false → installs = []) ∧
          ran.map Prod.fst = plans ∧ (∀ x ∈ ran, x.2.map Prod.fst = x.1.plan.entries) ∧
          evaluation.entries = ran.map (fun x => (x.1.source, x.2.map Prod.snd)) ∧
          Concludes w c now evaluation r)) := by
  refine ⟨fun e hfails m _ tools => ?_, fun hfails => ?_⟩
  · rw [run, plansToRun_of_fails hfails]
  obtain ⟨c, p, plans, hload, hplanner, hplans⟩ := exists_plans hfails
  have hrun := plansToRun_eq (a := a) hload hplanner
  refine ⟨c, p, hload, hplanner, fun hnone m _ tools => ?_, fun hsome => ?_⟩
  · rw [run, hrun, hnone]
    rfl
  · have hasked : (asked c a).isEmpty = false := by simpa using hsome
    rw [hasked, hplans] at hrun
    have hnodup : (plans.map (·.source)).Nodup := by
      have hsources : c.sources.plans p a.sources a.selection.contexts a.selection.filter =
          .ok (some plans) := by
        rw [Sources.plans_eq, Selection.filter, ← asked, hasked, hplans]
        rfl
      exact Sources.nodup_of_plans hsources
    refine ⟨plans, forall₂_of_mapM hplans, hnodup, showPlan_eq hload hplanner hasked hplans, ?_⟩
    intro σ tools s
    obtain ⟨calls, hcalls, installs, ran, evaluation, hinstalls, hnone, hcovers, hentries,
      hconcludes, rfl⟩ := records_plans tools schedule now hrun hnodup s []
    exact ⟨_, _, installs, ran, evaluation, rfl, hcalls, hinstalls, hnone, hcovers.plans_eq,
      hcovers.entries_eq, hentries, hconcludes⟩

/-- Tools for which every command is there and ends well, in a world that counts. -/
def counting : Tools (StateM Nat) where
  execute _ entry := fun n => ({ command := entry.command, success := true }, n + 1)
  installer _ := { isInstalled := fun _ => pure true, install := fun _ => pure (.ok ()) }

/-- The built-in configuration has no problems. -/
theorem exists_defaults_without_problems : ∃ builtIn, Config.defaults = .ok builtIn ∧
    builtIn.problems = [] := by
  have hfine : ((Config.ofTables Config.builtInEntries).any fun tables =>
      { tables with general := {}, logging := {} : Config }.problems.isEmpty) = true := by
    decide +kernel
  obtain ⟨tables, htables, hnone⟩ := (Option.any_eq_true _ _).mp hfine
  exact ⟨_, Config.ofText_of_silent Config.read_defaultDocument htables
    Config.silent_builtInEntries _, List.isEmpty_iff.mp hnone⟩

/-- Without a configuration file the built-in configuration counts, and can be planned with. -/
theorem exists_builtIn : ∃ builtIn, loadConfig { files := .empty } = .ok builtIn ∧
    plannerOf builtIn = .ok builtIn.uncheckedPlanner ∧ builtIn.parentProblems = [] := by
  obtain ⟨builtIn, hdefaults, hfine⟩ := exists_defaults_without_problems
  obtain ⟨-, hparents, -⟩ := Config.problems_eq_nil_iff.mp hfine
  refine ⟨builtIn, ?_, ?_, hparents⟩
  · have hnames : Path.names (Setup.configPath ".") = [".", "statue.toml"] := by decide +kernel
    have hnone : FileTree.hasPath .empty (Setup.configPath ".") = false := by
      simp [FileTree.hasPath, FileTree.get?, FileTree.locate, hnames, FileTree.follow,
        FileTree.at?, FileTree.empty, OrderedMap.lookup?]
    rw [loadConfig, Config.load]
    dsimp only
    rw [hnone, hdefaults]
    rfl
  · rw [plannerOf, Config.planner_of_no_problem hfine]
    rfl

/-- Without a configuration file every source can be planned for the default contexts. -/
theorem not_fails_builtIn (sources : List String) (hsome : sources.isEmpty = false) (e : Error) :
    ¬ Fails { files := .empty } { sources } e := by
  obtain ⟨builtIn, hload, hplanner, hparents⟩ := exists_builtIn
  intro h
  cases h with
  | load hfails => simp [hload] at hfails
  | planner hload' hfails =>
    obtain rfl := Except.ok.inj (hload.symm.trans hload')
    simp [hplanner] at hfails
  | source hload' hplanner' hasked hbefore hfails =>
    obtain rfl := Except.ok.inj (hload.symm.trans hload')
    obtain rfl := Except.ok.inj (hplanner.symm.trans hplanner')
    have hasked' : asked builtIn { sources } =
        (distinct sources).map fun source => ⟨source, [], {}⟩ := by
      rw [asked, Sources.asks, hsome]
      rfl
    obtain ⟨source, -, rfl⟩ := List.mem_map.mp
      (hasked'.symm.trans hasked ▸ List.mem_append_right _ List.mem_cons_self)
    obtain ⟨plan, hplan⟩ := Config.plan_of_knows hparents (List.forall_mem_nil _) {}
    rw [Planner.answer, hplan] at hfails
    cases hfails

/-- A run that names a missing configuration file comes to an error. A run on two sources, one
of them named twice, executes the commands that are shown for these two. -/
theorem run_plans_first_builtIn :
    run counting CommandLine.oldestFirst 0 { config := some "none.toml", files := .empty } {} =
      pure { outcome := .error (.config (.fileNotFound "none.toml")), files := .empty } ∧
    ∃ (plans : List SourcePlan) (r : Response) (s : Nat) (ran : Run.Log),
      plans.map (·.source) = ["src", "lib"] ∧ ran.map Prod.fst = plans ∧
      showPlan { files := .empty } { sources := ["src", "lib", "src"] } =
        .ok (Report.planText plans) ∧
      run counting.recorded CommandLine.oldestFirst 0 { files := .empty }
        { sources := ["src", "lib", "src"] } (0, []) =
          (r, s, ran.flatMap fun x => x.2.map fun y => .execute x.1.source y.1 y.2) := by
  refine ⟨(run_plans_first _ _ _ _).1 _ (.load ?_) counting, ?_⟩
  · have hnames : Path.names "none.toml" = ["none.toml"] := by decide +kernel
    have hnone : FileTree.hasPath .empty "none.toml" = false := by
      simp [FileTree.hasPath, FileTree.get?, FileTree.locate, hnames, FileTree.follow,
        FileTree.at?, FileTree.empty, OrderedMap.lookup?]
    simp [loadConfig, Config.load, Config.ofFile, hnone]
  · obtain ⟨c, p, -, -, -, hplanned⟩ := (run_plans_first { files := .empty }
      { sources := ["src", "lib", "src"] } CommandLine.oldestFirst 0).2
      (not_fails_builtIn _ rfl)
    obtain ⟨plans, hanswers, -, hshown, hrun⟩ := hplanned (List.cons_ne_nil _ _)
    obtain ⟨r, s, installs, ran, evaluation, -, hcalls, -, hnone, hran, -, -, -⟩ :=
      hrun counting 0
    obtain rfl := hnone rfl
    have hasked : asked c { sources := ["src", "lib", "src"] } =
        [⟨"src", [], {}⟩, ⟨"lib", [], {}⟩] := rfl
    rw [hasked, List.forall₂_cons_left_iff] at hanswers
    obtain ⟨first, rest, hfirst, hrest, rfl⟩ := hanswers
    obtain ⟨second, none, hsecond, hnone, rfl⟩ := List.forall₂_cons_left_iff.mp hrest
    obtain rfl := List.forall₂_nil_left_iff.mp hnone
    refine ⟨_, r, s, ran, ?_, hran, hshown .text, hcalls⟩
    simp [(Planner.answer_eq_ok_iff.mp hfirst).2, (Planner.answer_eq_ok_iff.mp hsecond).2]

end Program

end Checkup
