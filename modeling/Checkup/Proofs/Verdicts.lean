import Checkup.Proofs.Selection
import Checkup.Proofs.WholeRuns
import Mathlib.Data.List.TFAE

/-!
# Verdicts on evaluations

The commands of an evaluation are counted, those that failed are listed, and a run sums them up and
ends with an exit status. Each of these goes through the results by itself; they agree.

* `Evaluation.failed_allResults` — the failed commands are those that are listed.
* `Evaluation.commandCount_eq`, `Evaluation.failures_eq_nil_iff`,
  `Evaluation.successCount_eq_iff` — counts, list and verdict.
* `Evaluation.mem_failures`, `Evaluation.failures_sublist` — what is listed, and in which order.
* `Report.runSummary_eq_iff` — which summary reports a success.
* `Program.conclusion_of_run` — how a run ends with its evaluation.
* `Evaluation.verdicts_agree` — all of this, whatever has been inserted.
-/

namespace Checkup

/-! ## Counts and failures -/

namespace Results

theorem failed_append (results more : Results) :
    failed (results ++ more) = failed results ++ failed more := by
  simp [failed]

/-- A command that did not end well makes the verdict. -/
theorem success_eq_false_iff {results : Results} :
    results.success = false ↔ ∃ r ∈ results, r.success = false := by
  simp [success]

end Results

namespace Evaluation

variable (e : Evaluation)

/-- The commands that failed are those that are listed. -/
theorem failed_allResults : e.allResults.failed = e.failures.flatMap Prod.snd := by
  rw [allResults, OrderedMap.values, failures]
  induction e.entries with
  | nil => rfl
  | cons entry rest ih =>
    rw [List.map_cons, List.flatten_cons, Results.failed_append, ih]
    -- a source without failures is not listed, and has no failed commands
    cases hsuccess : Results.success entry.2 with
    | true => simp [hsuccess, Results.failed_eq_nil_iff.mpr hsuccess]
    | false => simp [hsuccess]

/-- Every command ended well or is listed. -/
theorem commandCount_eq :
    e.commandCount = e.successCount + (e.failures.map fun failure => failure.2.length).sum :=
  calc e.commandCount
    _ = e.successCount + e.allResults.failed.length :=
      (Results.successful_add_length_failed e.allResults).symm
    _ = e.successCount + (e.failures.map fun failure => failure.2.length).sum := by
      rw [failed_allResults, List.length_flatMap]

/-- Sources with a failure are listed, and no others. -/
theorem failures_eq_nil_iff : e.failures = [] ↔ e.success = true := by
  simp [failures, success, OrderedMap.values, List.filter_eq_nil_iff]

/-- Every listed source has a failed command. -/
theorem length_pos_of_mem_failures {failure : String × List String} (h : failure ∈ e.failures) :
    0 < failure.2.length := by
  obtain ⟨entry, hentry, rfl⟩ := List.mem_map.mp h
  have hfails : Results.success entry.2 ≠ true := by simpa using (List.mem_filter.mp hentry).2
  exact List.length_pos_iff.mpr (mt Results.failed_eq_nil_iff.mp hfails)

/-- All commands ended well just if nothing is listed. -/
theorem successCount_eq_iff : e.successCount = e.commandCount ↔ e.failures = [] := by
  rw [commandCount_eq, Nat.left_eq_add, List.sum_eq_zero_iff_forall_eq_nat]
  constructor
  · intro hzero
    by_contra hne
    obtain ⟨failure, hfailure⟩ := List.exists_mem_of_ne_nil _ hne
    have hpos := e.length_pos_of_mem_failures hfailure
    exact hpos.ne' (hzero _ (List.mem_map_of_mem hfailure))
  · intro hnone
    simp [hnone]

/-- A source is listed with the names of its failed commands, if there are any. -/
theorem mem_failures {source : String} {names : List String} :
    (source, names) ∈ e.failures ↔ ∃ results, e.get? source = some results ∧
      (∃ r ∈ results, r.success = false) ∧
      names = (results.filter fun r => !r.success).map (·.command) := by
  simp only [failures, List.mem_map, List.mem_filter, Bool.not_eq_true', Prod.exists,
    Prod.mk.injEq, OrderedMap.get?_eq_some_iff, Results.success_eq_false_iff]
  constructor
  · rintro ⟨_, results, ⟨hentry, hfails⟩, rfl, rfl⟩
    exact ⟨results, hentry, hfails, rfl⟩
  · rintro ⟨results, hentry, hfails, rfl⟩
    exact ⟨source, results, ⟨hentry, hfails⟩, rfl, rfl⟩

/-- Sources are listed in their order. -/
theorem failures_sublist : (e.failures.map Prod.fst).Sublist e.keys := by
  rw [failures, List.map_map]
  exact List.filter_sublist.map Prod.fst

end Evaluation

/-! ## Summaries -/

namespace Report

/-- The summary of a run in which nothing failed. -/
def successSummary : String := heading "Summary" ++ "\n\n" ++ "Statue finished successfully!"

/-- The summary of a run in which commands failed. -/
def failureSummary (failures : List (String × List String)) : String :=
  heading "Summary" ++ "\n\n" ++ ("Statue has failed on the following commands:\n" ++
    String.join (failures.map fun (source, commands) =>
      "\n" ++ source ++ ":\n\t" ++ ", ".intercalate commands))

theorem runSummary_of_success {e : Evaluation} (h : e.failures = []) :
    runSummary e = successSummary := by
  simp [runSummary, h, successSummary]

theorem runSummary_of_failure {e : Evaluation} (h : e.failures ≠ []) :
    runSummary e = failureSummary e.failures := by
  simp [runSummary, h, failureSummary]

/-- No list of failures reads as a success. -/
theorem failureSummary_ne (failures : List (String × List String)) :
    failureSummary failures ≠ successSummary := by
  intro h
  -- behind the heading the texts differ at their eighth character
  have htext := congrArg (fun text => text.toList[7]?) ((String.append_right_inj _).mp h)
  simp at htext

/-- The summary reports a success just if nothing is listed. -/
theorem runSummary_eq_iff {e : Evaluation} : runSummary e = successSummary ↔ e.failures = [] := by
  refine ⟨fun h => ?_, runSummary_of_success⟩
  by_contra hfails
  exact failureSummary_ne _ ((runSummary_of_failure hfails).symm.trans h)

end Report

/-! ## The end of a run -/

namespace Program

variable {σ : Type} {w : Workspace} {c : Config} {a : RunArguments} {plans : List SourcePlan}

/-- What is installed before a run. -/
def installs (tools : Tools (StateM σ)) (c : Config) (a : RunArguments)
    (plans : List SourcePlan) : StateM σ (List Install.Report) :=
  if a.install then
    Install.installMissing (tools.installer c.general.installCommand) (Install.planned plans)
  else pure []

/-- The evaluation of a run, in a world: that of its plans, once everything is installed. -/
def evaluated (tools : Tools (StateM σ)) (schedule : Schedule Run.Task) (c : Config)
    (a : RunArguments) (plans : List SourcePlan) (s : σ) : Evaluation :=
  (Run.run tools.execute a.jobs schedule plans (installs tools c a plans s).2).1.evaluation

/-- A run ends with its evaluation, if that can be stored. -/
theorem conclusion_of_run (tools : Tools (StateM σ)) (schedule : Schedule Run.Task) (now : Int)
    (hplans : plansToRun w a = .ok (c, some plans)) (s : σ) :
    Concludes w c now (evaluated tools schedule c a plans s)
      (run tools schedule now w a s).1 := by
  have hrun : run tools schedule now w a s =
      afterInstalls tools schedule now w c a plans (installs tools c a plans s).1
        (installs tools c a plans s).2 := by
    rw [run_eq_afterInstalls tools schedule now hplans]
    rfl
  rw [hrun, evaluated]
  generalize installs tools c a plans s = installed
  obtain ⟨reports, s⟩ := installed
  rw [afterInstalls, Concludes]
  dsimp only [bind, StateT.bind]
  generalize Run.run tools.execute a.jobs schedule plans s = ran
  obtain ⟨result, s⟩ := ran
  dsimp only
  cases hs : (historyOf w c).save w.files result.evaluation now with
  | error e => exact ⟨rfl, rfl⟩
  | ok saved => exact ⟨rfl, rfl, rfl⟩

/-- What a run replies, and its exit status. -/
theorem exitCode_of_run (tools : Tools (StateM σ)) (schedule : Schedule Run.Task) (now : Int)
    (hplans : plansToRun w a = .ok (c, some plans)) (s : σ) :
    let e := evaluated tools schedule c a plans s
    let r := (run tools schedule now w a s).1
    r.outcome = ((historyOf w c).save w.files e now).map
        (fun _ => ⟨"\n" ++ Report.runSummary e, e.success⟩) ∧
      ((CommandLine.finish r).exitCode = 0 ↔
        (∃ reply, r.outcome = .ok reply) ∧ e.success = true) := by
  intro e r
  have hends : Concludes w c now e r := conclusion_of_run tools schedule now hplans s
  rw [Concludes] at hends
  cases hsave : (historyOf w c).save w.files e now with
  | error failure =>
    rw [hsave] at hends
    refine ⟨hends.1, ?_⟩
    simp [CommandLine.finish, hends.1]
  | ok saved =>
    rw [hsave] at hends
    obtain ⟨houtcome, -, hexit⟩ := hends
    refine ⟨houtcome, ?_⟩
    rw [hexit, houtcome]
    cases e.success <;> simp

end Program

/-! ## All together -/

namespace Evaluation

open Program (plansToRun historyOf evaluated)

/-- **All verdicts on an evaluation agree**, whatever results have been inserted for whatever
sources, some of them more than once.

* Sources are in the order of their first insertions, with the results that were inserted last.
* Every command ended well or is listed as failed.
* All commands ended well, no failure is listed, as many ended well as there are, and the summary
  reports a success: these are the same.
* Otherwise the summary has the sources with a failure, in their order, each with the names of its
  failed commands, in theirs.
* A run with this evaluation replies with its summary, unless it cannot be stored, and its exit
  status is zero just if it replies and all commands ended well. -/
theorem verdicts_agree (inserts : List (String × Results)) :
    let e : Evaluation := OrderedMap.ofList inserts
    (e.keys = (inserts.map Prod.fst).eraseDups ∧
      ∀ source results, e.get? source = some results ↔
        ∃ before after, inserts = before ++ (source, results) :: after ∧
          source ∉ after.map Prod.fst) ∧
    e.commandCount = e.successCount + (e.failures.map fun failure => failure.2.length).sum ∧
    List.TFAE [e.success = true, e.failures = [], e.successCount = e.commandCount,
      Report.runSummary e = Report.successSummary] ∧
    ((e.success = false → Report.runSummary e = Report.failureSummary e.failures) ∧
      (e.failures.map Prod.fst).Sublist e.keys ∧
      ∀ source names, (source, names) ∈ e.failures ↔ ∃ results, e.get? source = some results ∧
        (∃ r ∈ results, r.success = false) ∧
        names = (results.filter fun r => !r.success).map (·.command)) ∧
    ∀ {σ : Type} (tools : Tools (StateM σ)) (schedule : Schedule Run.Task) (now : Int)
      (w : Workspace) (a : RunArguments) (c : Config) (plans : List SourcePlan) (s : σ),
      plansToRun w a = .ok (c, some plans) → evaluated tools schedule c a plans s = e →
      let r := (Program.run tools schedule now w a s).1
      r.outcome = ((historyOf w c).save w.files e now).map
          (fun _ => ⟨"\n" ++ Report.runSummary e, e.success⟩) ∧
        ((CommandLine.finish r).exitCode = 0 ↔
          (∃ reply, r.outcome = .ok reply) ∧ e.success = true) := by
  intro e
  refine ⟨⟨?_, fun source results => OrderedMap.get?_ofList_eq_some_iff⟩, e.commandCount_eq, ?_,
    ⟨fun hfails => ?_, e.failures_sublist, fun source names => e.mem_failures⟩, ?_⟩
  · rw [OrderedMap.keys_ofList, distinct, distinctBy_eq_eraseDups (by simp)]
  · tfae_have 1 ↔ 2 := e.failures_eq_nil_iff.symm
    tfae_have 3 ↔ 2 := e.successCount_eq_iff
    tfae_have 4 ↔ 2 := Report.runSummary_eq_iff
    tfae_finish
  · refine Report.runSummary_of_failure fun hnone => ?_
    rw [e.failures_eq_nil_iff.mp hnone] at hfails
    cases hfails
  · intro σ tools schedule now w a c plans s hplans he
    rw [← he]
    exact Program.exitCode_of_run tools schedule now hplans s

/-- Results for two sources, of which the first one is evaluated again. -/
def twice : List (String × Results) := [
  ("src", [{ command := "black", success := false }]),
  ("tests", [{ command := "mypy", success := false }, { command := "flake8", success := true },
    { command := "pylint", success := false }]),
  ("src", [{ command := "black", success := true }])]

/-- Only the second source has failures in the end. A run in an empty workspace has an evaluation
as well, and ends as it says. -/
theorem verdicts_agree_twice :
    Evaluation.success (OrderedMap.ofList twice) = false ∧
    Report.runSummary (OrderedMap.ofList twice) =
      Report.failureSummary [("tests", ["mypy", "pylint"])] ∧
    ∃ c plans, plansToRun { files := .empty } { sources := ["src"] } = .ok (c, some plans) ∧
      let e := evaluated Program.counting CommandLine.oldestFirst c { sources := ["src"] } plans 0
      let r := (Program.run Program.counting CommandLine.oldestFirst 0 { files := .empty }
        { sources := ["src"] } 0).1
      (CommandLine.finish r).exitCode = 0 ↔
        (∃ reply, r.outcome = .ok reply) ∧ e.success = true := by
  have hfails : Evaluation.success (OrderedMap.ofList twice) = false := by decide +kernel
  have hfailures : failures (OrderedMap.ofList twice) = [("tests", ["mypy", "pylint"])] := by
    decide +kernel
  refine ⟨hfails, ?_, ?_⟩
  · obtain ⟨-, -, -, ⟨hsummary, -⟩, -⟩ := verdicts_agree twice
    rw [hsummary hfails, hfailures]
  · obtain ⟨c, p, plans, hload, hplanner, hplans⟩ :=
      Program.exists_plans (Program.not_fails_builtIn ["src"] rfl)
    have hrun : plansToRun { files := .empty } { sources := ["src"] } = .ok (c, some plans) := by
      rw [Program.plansToRun_eq hload hplanner, hplans]
      rfl
    refine ⟨c, plans, hrun, ?_⟩
    intro e r
    obtain ⟨-, -, -, -, hruns⟩ := verdicts_agree e.entries
    have he : OrderedMap.ofList e.entries = e :=
      OrderedMap.ext (OrderedMap.entries_ofList e.nodup)
    rw [he] at hruns
    exact (hruns _ _ 0 _ _ c plans 0 hrun rfl).2

end Evaluation

end Checkup
