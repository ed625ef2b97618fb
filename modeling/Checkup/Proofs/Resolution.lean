import Checkup.Proofs.Requests
import Checkup.Proofs.WholeRuns

/-!
# One command and whole plans

A command can be resolved by itself, or looked for in a plan. What is said of it is the same:

* `Planner.get?_planUnder` — the entry of a command in a plan, read off the catalog.
* `Planner.ResolvesAsPlanned` — a planner that resolves commands as it plans them
  (`resolvesAsPlanned_of_nodup`).
* `Program.ReportsAsPlanned` — a report on a command that says what a plan does.
* `Program.ShowsAsPlanned` — a workspace whose reports on a command say what its lists and plans
  do (`showsAsPlanned`).
* `Program.resolved_as_planned` — every planner that registrations lead to, and every workspace,
  is one of these.
-/

namespace Checkup

/-! ## Entries by name -/

namespace Planner

variable {p : Planner} {name : String} {requested : List String} {active : List Context}
  {filter : Filter} {command : Command}

/-- The entry of a plan under a name is the only one of that command. -/
theorem get?_planUnder_eq_some_iff (hn : (p.catalog.commands.map (·.name)).Nodup)
    {e : Plan.Entry} : (p.planUnder filter active).get? name = some e ↔
      e ∈ (p.planUnder filter active).entries ∧ e.command = name := by
  rw [Plan.get?]
  exact find?_key_eq_some_iff (hn.sublist (p.entries_sublist filter active))

/-- What a plan has for a command is its entry under the active contexts, if one of them selects
it and it may run. -/
theorem get?_planUnder (hn : (p.catalog.commands.map (·.name)).Nodup) (filter : Filter)
    (active : List Context) (name : String) :
    (p.planUnder filter active).get? name =
      ((p.catalog.get? name).map (entry active)).filter fun e =>
        e.selectedBy ≠ [] ∧ filter.permits name = true := by
  ext e
  rw [get?_planUnder_eq_some_iff hn, mem_entries_iff hn, Option.filter_eq_some_iff,
    Option.map_eq_some_iff, decide_eq_true_eq]
  constructor
  · rintro ⟨⟨command, hget, rfl, hselected, hpermits⟩, rfl⟩
    exact ⟨⟨command, hget, rfl⟩, hselected, hpermits⟩
  · rintro ⟨⟨command, hget, rfl⟩, hselected, hpermits⟩
    obtain rfl : command.name = name := by simpa using List.find?_some hget
    exact ⟨⟨command, hget, rfl, hselected, hpermits⟩, rfl⟩

/-! ## Resolved commands -/

/-- An unknown command is not resolved, whatever is asked for. -/
theorem resolveCommand_of_unknown (h : p.catalog.get? name = none) (requested : List String) :
    p.resolveCommand name requested = .error (.unknownCommand name) := by
  rw [resolveCommand, Catalog.get, h]
  rfl

/-- A known command is resolved just if the request is expanded. -/
theorem resolveCommand_of_known (h : p.catalog.get? name = some command)
    (requested : List String) :
    p.resolveCommand name requested =
      (p.activeContexts requested).map fun active => entry active command := by
  rw [resolveCommand, Catalog.get, h]
  cases p.activeContexts requested <;> rfl

/-- What is resolved is the entry of a known command. -/
theorem exists_of_resolveCommand {e : Plan.Entry} (h : p.resolveCommand name requested = .ok e) :
    ∃ command active, p.catalog.get? name = some command ∧
      p.activeContexts requested = .ok active ∧ entry active command = e := by
  cases hget : p.catalog.get? name with
  | none => simp [resolveCommand_of_unknown hget] at h
  | some command =>
    rw [resolveCommand_of_known hget, map_eq_bind] at h
    obtain ⟨active, hactive, hentry⟩ := bind_eq_ok h
    exact ⟨command, active, rfl, hactive, Except.ok.inj hentry⟩

/-- A planner that resolves a command as it plans it. -/
structure ResolvesAsPlanned (p : Planner) : Prop where
  /-- a plan has one entry for a command at most, and it is found by the name -/
  found : ∀ requested filter plan, p.plan requested filter = .ok plan →
    ∀ name e, plan.get? name = some e ↔ e ∈ plan.entries ∧ e.command = name
  /-- it is the command as it is resolved, if some context selects it and it may run -/
  planned : ∀ requested filter name e,
    (∃ plan, p.plan requested filter = .ok plan ∧ plan.get? name = some e) ↔
      p.resolveCommand name requested = .ok e ∧ e.selectedBy ≠ [] ∧ filter.permits name = true
  /-- a command that is not in the catalog is unknown, whatever is asked for -/
  unknown : ∀ name, name ∉ p.catalog.commands.map (·.name) → ∀ requested,
    p.resolveCommand name requested = .error (.unknownCommand name)
  /-- another one is not resolved just if there is no plan, with the same error -/
  fails : ∀ name ∈ p.catalog.commands.map (·.name), ∀ requested filter e,
    p.resolveCommand name requested = .error e ↔ p.plan requested filter = .error e

/-- **Planners resolve as they plan**, if no two of their commands have one name. -/
theorem resolvesAsPlanned_of_nodup (hn : (p.catalog.commands.map (·.name)).Nodup) :
    ResolvesAsPlanned p := by
  constructor
  case found =>
    intro requested filter plan hplan name e
    obtain ⟨active, -, rfl⟩ := plan_eq_ok_iff.mp hplan
    exact get?_planUnder_eq_some_iff hn
  case planned =>
    intro requested filter name e
    have hentry : ∀ active, (p.planUnder filter active).get? name = some e ↔
        (∃ command, p.catalog.get? name = some command ∧ entry active command = e) ∧
          e.selectedBy ≠ [] ∧ filter.permits name = true := by
      intro active
      rw [get?_planUnder hn, Option.filter_eq_some_iff, Option.map_eq_some_iff, decide_eq_true_eq]
    constructor
    · rintro ⟨plan, hplan, hfound⟩
      obtain ⟨active, hactive, rfl⟩ := plan_eq_ok_iff.mp hplan
      obtain ⟨⟨command, hget, rfl⟩, hruns⟩ := (hentry active).mp hfound
      exact ⟨resolveCommand_eq_ok hget hactive, hruns⟩
    · rintro ⟨hresolve, hruns⟩
      obtain ⟨command, active, hget, hactive, rfl⟩ := exists_of_resolveCommand hresolve
      exact ⟨p.planUnder filter active, plan_eq_ok_iff.mpr ⟨active, hactive, rfl⟩,
        (hentry active).mpr ⟨⟨command, hget, rfl⟩, hruns⟩⟩
  case unknown =>
    intro name hname requested
    exact resolveCommand_of_unknown (Catalog.get?_eq_none_iff.mpr hname) requested
  case fails =>
    intro name hname requested filter e
    obtain ⟨command, hget⟩ := Catalog.exists_get?_of_mem hname
    rw [resolveCommand_of_known hget, plan_eq]
    cases p.activeContexts requested <;> simp [Except.map]

end Planner

/-! ## Reports -/

namespace Program

open Planner (ofRegistered siblings checks siblingsPlan plan_eq plan_eq_ok_iff)

variable {w : Workspace} {c : Config} {p : Planner} {name : String} {contexts : List String}
  {filter : Filter} {command : Command} {a : PlanArguments}

/-- A report on a command that says what a plan does. It is on the command as it is resolved, under
the active contexts of the plan; and the plan has that entry if some context selects the command
and it may run, otherwise none. -/
def ReportsAsPlanned (p : Planner) (name : String) (contexts : List String) (filter : Filter)
    (plan : Plan) (text : String) : Prop :=
  ∃ command entry, p.catalog.get? name = some command ∧
    p.resolveCommand name contexts = .ok entry ∧
    text = Report.commandDetail command entry plan.activeContexts ∧
    plan.get? name =
      if entry.selectedBy ≠ [] ∧ filter.permits name = true then some entry else none

/-- The planner of a configuration has its commands. -/
theorem eq_of_plannerOf (h : plannerOf c = .ok p) : c.uncheckedPlanner = p := by
  rw [plannerOf, Config.planner] at h
  cases hproblems : c.problems with
  | nil =>
    rw [hproblems] at h
    exact Except.ok.inj h
  | cons first rest =>
    rw [hproblems] at h
    cases h

/-- There is no report on an unknown command. -/
theorem showCommand_of_unknown (hload : loadConfig w = .ok c) (hplanner : plannerOf c = .ok p)
    (h : p.catalog.get? name = none) (contexts : List String) :
    showCommand w name contexts = .error (.resolve (.unknownCommand name)) := by
  rw [showCommand, bind_planner hload hplanner, Catalog.get, h]
  rfl

/-- The report on a known command. -/
theorem showCommand_of_known (hload : loadConfig w = .ok c) (hplanner : plannerOf c = .ok p)
    (h : p.catalog.get? name = some command) (contexts : List String) :
    showCommand w name contexts =
      ((p.activeContexts contexts).mapError Error.resolve).map fun active =>
        Report.commandDetail command (Planner.entry active command) (active.map (·.name)) := by
  rw [showCommand, bind_planner hload hplanner, Planner.resolveCommand_of_known h, Catalog.get, h]
  cases p.activeContexts contexts <;> rfl

/-- It fails if the same contexts cannot be planned. -/
theorem showCommand_eq_error_iff (hload : loadConfig w = .ok c) (hplanner : plannerOf c = .ok p)
    (h : p.catalog.get? name = some command) (filter : Filter) {e : Error} :
    showCommand w name contexts = .error e ↔
      ∃ reason, p.plan contexts filter = .error reason ∧ e = .resolve reason := by
  rw [showCommand_of_known hload hplanner h, plan_eq]
  cases p.activeContexts contexts <;> simp [Except.map, Except.mapError, eq_comm]

/-- Otherwise it says what the plan does. -/
theorem exists_showCommand (hload : loadConfig w = .ok c) (hplanner : plannerOf c = .ok p)
    (hn : (p.catalog.commands.map (·.name)).Nodup) (h : p.catalog.get? name = some command)
    {plan : Plan} (hplan : p.plan contexts filter = .ok plan) :
    ∃ text, showCommand w name contexts = .ok text ∧
      ReportsAsPlanned p name contexts filter plan text := by
  obtain ⟨active, hactive, rfl⟩ := plan_eq_ok_iff.mp hplan
  refine ⟨_, ?_, command, Planner.entry active command, h,
    Planner.resolveCommand_eq_ok h hactive, rfl, ?_⟩
  · rw [showCommand_of_known hload hplanner h, hactive]
    rfl
  · rw [Planner.get?_planUnder hn, h]
    simp [Option.filter]

/-! ## Lists and plans -/

/-- A list is that of the plan for the selection. -/
theorem showCommands_eq (hload : loadConfig w = .ok c) (hplanner : plannerOf c = .ok p)
    (s : Selection) : showCommands w s =
      ((p.plan s.contexts s.filter).mapError Error.resolve).map fun plan =>
        Report.commandList plan p.catalog := by
  rw [showCommands, bind_planner hload hplanner]
  cases p.plan s.contexts s.filter <;> rfl

/-- What is asked of the planner to show plans: what is asked for sources; without any, what is
asked for the workspace. -/
def asksToShow (c : Config) (a : PlanArguments) : List Sources.Ask :=
  let filter : Filter := ⟨a.selection.allow, a.selection.deny⟩
  let asks := c.sources.asks a.sources a.selection.contexts filter
  if asks.isEmpty then [⟨workspaceSource, a.selection.contexts, filter⟩] else asks

/-- The plans that are shown are the answers. -/
theorem plansToShow_eq (c : Config) (p : Planner) (a : PlanArguments) :
    plansToShow c p a = ((asksToShow c a).mapM p.answer).mapError Error.resolve := by
  rw [plansToShow, Sources.plans_eq, Selection.filter, asksToShow]
  generalize Filter.mk a.selection.allow a.selection.deny = filter
  split
  · rw [List.mapM_cons, Planner.answer]
    cases p.plan a.selection.contexts filter <;> rfl
  · cases (c.sources.asks a.sources a.selection.contexts filter).mapM p.answer <;> rfl

/-- For a known command, plans fail with the error of the first report that does. -/
theorem showPlan_eq_error_iff (hload : loadConfig w = .ok c) (hplanner : plannerOf c = .ok p)
    (h : p.catalog.get? name = some command) {e : Error} : showPlan w a = .error e ↔
      ∃ before ask after, asksToShow c a = before ++ ask :: after ∧
        (∀ b ∈ before, ∃ text, showCommand w name b.contexts = .ok text) ∧
        showCommand w name ask.contexts = .error e := by
  -- a report fails just if the plan for the same contexts does
  have hfails : ∀ ask e, showCommand w name ask.contexts = .error e ↔
      ∃ reason, p.answer ask = .error reason ∧ e = .resolve reason := by
    intro ask e
    rw [showCommand_eq_error_iff hload hplanner h ask.filter, Planner.answer]
    cases p.plan ask.contexts ask.filter <;> simp [Except.map]
  have hplanned : ∀ ask, (∃ plan, p.answer ask = .ok plan) ↔
      ∃ text, showCommand w name ask.contexts = .ok text := by
    intro ask
    rw [showCommand_of_known hload hplanner h, Planner.answer, plan_eq]
    cases p.activeContexts ask.contexts <;> simp [Except.map, Except.mapError]
  have hshown : showPlan w a = .error e ↔
      ∃ reason, (asksToShow c a).mapM p.answer = .error reason ∧ e = .resolve reason := by
    rw [showPlan_eq_map hload hplanner, plansToShow_eq]
    cases (asksToShow c a).mapM p.answer <;> simp [Except.map, Except.mapError, eq_comm]
  simp only [hshown, mapM_eq_error_iff, hfails, ← hplanned]
  constructor
  · rintro ⟨reason, ⟨before, ask, after, hasks, hbefore, hask⟩, rfl⟩
    exact ⟨before, ask, after, hasks, hbefore, reason, hask, rfl⟩
  · rintro ⟨before, ask, after, hasks, hbefore, reason, hask, rfl⟩
    exact ⟨reason, ⟨before, ask, after, hasks, hbefore, hask⟩, rfl⟩

/-- A workspace whose reports on a command say what its lists and plans do. -/
structure ShowsAsPlanned (w : Workspace) (c : Config) (p : Planner) (name : String) : Prop where
  /-- there is no report on a command that the catalog does not have -/
  unknown : name ∉ p.catalog.commands.map (·.name) → ∀ contexts,
    showCommand w name contexts = .error (.resolve (.unknownCommand name))
  /-- the report on another one fails just if the list does, with the same error -/
  listFails : name ∈ p.catalog.commands.map (·.name) → ∀ s e,
    showCommand w name s.contexts = .error e ↔ showCommands w s = .error e
  /-- otherwise it says what the plan does that is listed -/
  listed : name ∈ p.catalog.commands.map (·.name) → ∀ s list, showCommands w s = .ok list →
    ∃ plan text, p.plan s.contexts s.filter = .ok plan ∧
      list = Report.commandList plan p.catalog ∧ showCommand w name s.contexts = .ok text ∧
      ReportsAsPlanned p name s.contexts s.filter plan text
  /-- plans fail with the error of the first report that does, source by source -/
  planFails : name ∈ p.catalog.commands.map (·.name) → ∀ a e, showPlan w a = .error e ↔
    ∃ before ask after, asksToShow c a = before ++ ask :: after ∧
      (∀ b ∈ before, ∃ text, showCommand w name b.contexts = .ok text) ∧
      showCommand w name ask.contexts = .error e
  /-- otherwise each report says what the plan of the source does -/
  planned : name ∈ p.catalog.commands.map (·.name) → ∀ a shown, showPlan w a = .ok shown →
    ∃ plans, shown = planReport a.format plans ∧ List.Forall₂ (fun ask plan =>
      p.answer ask = .ok plan ∧ ∃ text, showCommand w name ask.contexts = .ok text ∧
        ReportsAsPlanned p name ask.contexts ask.filter plan.plan text) (asksToShow c a) plans

/-- **Reports on a command say what lists and plans do**, for commands with distinct names. -/
theorem showsAsPlanned (hload : loadConfig w = .ok c) (hplanner : plannerOf c = .ok p)
    (hn : (p.catalog.commands.map (·.name)).Nodup) (name : String) :
    ShowsAsPlanned w c p name := by
  constructor
  case unknown =>
    intro hname contexts
    exact showCommand_of_unknown hload hplanner (Catalog.get?_eq_none_iff.mpr hname) contexts
  case listFails =>
    intro hname s e
    obtain ⟨command, hget⟩ := Catalog.exists_get?_of_mem hname
    rw [showCommand_eq_error_iff hload hplanner hget s.filter, showCommands_eq hload hplanner]
    cases p.plan s.contexts s.filter <;> simp [Except.map, Except.mapError, eq_comm]
  case listed =>
    intro hname s list hlist
    obtain ⟨command, hget⟩ := Catalog.exists_get?_of_mem hname
    rw [showCommands_eq hload hplanner] at hlist
    cases hplan : p.plan s.contexts s.filter with
    | error e => simp [hplan, Except.map, Except.mapError] at hlist
    | ok plan =>
      rw [hplan] at hlist
      obtain ⟨text, htext, hreports⟩ := exists_showCommand hload hplanner hn hget hplan
      exact ⟨plan, text, rfl, (Except.ok.inj hlist).symm, htext, hreports⟩
  case planFails =>
    intro hname a e
    obtain ⟨command, hget⟩ := Catalog.exists_get?_of_mem hname
    exact showPlan_eq_error_iff hload hplanner hget
  case planned =>
    intro hname a shown hshown
    obtain ⟨command, hget⟩ := Catalog.exists_get?_of_mem hname
    rw [showPlan_eq_map hload hplanner, plansToShow_eq] at hshown
    cases hplans : (asksToShow c a).mapM p.answer with
    | error e => simp [hplans, Except.map, Except.mapError] at hshown
    | ok plans =>
      rw [hplans] at hshown
      refine ⟨plans, (Except.ok.inj hshown).symm, (forall₂_of_mapM hplans).imp ?_⟩
      intro ask plan hanswer
      obtain ⟨hplan, -⟩ := Planner.answer_eq_ok_iff.mp hanswer
      exact ⟨hanswer, exists_showCommand hload hplanner hn hget hplan⟩

/-- **Commands are resolved and shown as they are planned**, whatever was registered, and whatever
the workspace says. If it says nothing that can be planned with, every report is the same error. -/
theorem resolved_as_planned (contexts : List Context) (commands : List Command) (w : Workspace) :
    (ofRegistered contexts commands).ResolvesAsPlanned ∧
    ((∃ e, (loadConfig w = .error e ∨ ∃ c, loadConfig w = .ok c ∧ plannerOf c = .error e) ∧
        ∀ name contexts s a, showCommand w name contexts = .error e ∧
          showCommands w s = .error e ∧ showPlan w a = .error e) ∨
      ∃ c p, loadConfig w = .ok c ∧ plannerOf c = .ok p ∧ p.ResolvesAsPlanned ∧
        ∀ name, ShowsAsPlanned w c p name) := by
  refine ⟨Planner.resolvesAsPlanned_of_nodup (Catalog.nodup_ofCommands commands), ?_⟩
  cases hload : loadConfig w with
  | error e =>
    refine .inl ⟨e, .inl rfl, fun name contexts s a => ?_⟩
    rw [showCommand, showCommands, showPlan, hload]
    exact ⟨rfl, rfl, rfl⟩
  | ok c =>
    cases hplanner : plannerOf c with
    | error e =>
      refine .inl ⟨e, .inr ⟨c, rfl, hplanner⟩, fun name contexts s a => ?_⟩
      rw [showCommand, showCommands, showPlan, hload]
      change (plannerOf c >>= _) = _ ∧ (plannerOf c >>= _) = _ ∧ (plannerOf c >>= _) = _
      rw [hplanner]
      exact ⟨rfl, rfl, rfl⟩
    | ok p =>
      have hn : (p.catalog.commands.map (·.name)).Nodup := by
        rw [← eq_of_plannerOf hplanner]
        exact Config.nodup_catalog
      exact .inr ⟨c, p, rfl, hplanner, Planner.resolvesAsPlanned_of_nodup hn,
        showsAsPlanned hload hplanner hn⟩

theorem resolved_as_planned_siblings :
    (ofRegistered siblings checks).plan ["s", "test"] {} = .ok siblingsPlan ∧
    (ofRegistered siblings checks).resolveCommand "mypy" ["s", "test"] =
      .ok { command := "mypy", args := [], selectedBy := ["strict"] } ∧
    (ofRegistered siblings checks).resolveCommand "ghost" ["nowhere"] =
      .error (.unknownCommand "ghost") ∧
    (ofRegistered siblings checks).resolveCommand "bandit" ["nowhere"] =
      .error (.unknownContext "nowhere") ∧
    ∀ name, showCommand { files := .empty } name [] = .error (.resolve (.unknownCommand name)) ∨
      ∃ text, showCommand { files := .empty } name [] = .ok text := by
  obtain ⟨hresolves, hshows⟩ := resolved_as_planned siblings checks { files := .empty }
  have hplan : (ofRegistered siblings checks).plan ["s", "test"] {} = .ok siblingsPlan := by
    decide +kernel
  have hfails : (ofRegistered siblings checks).plan ["nowhere"] {} =
      .error (.unknownContext "nowhere") := by decide +kernel
  refine ⟨hplan, ((hresolves.planned _ {} "mypy" _).mp ⟨_, hplan, by decide⟩).1,
    hresolves.unknown "ghost" (by decide +kernel) _,
    (hresolves.fails "bandit" (by decide +kernel) _ {} _).mpr hfails, fun name => ?_⟩
  obtain ⟨builtIn, hload, hplanner, hparents⟩ := exists_builtIn
  obtain ⟨e, hload' | ⟨c, hload', hplanner'⟩, -⟩ | ⟨c, p, hload', hplanner', -, hshows⟩ := hshows
  · cases hload.symm.trans hload'
  · obtain rfl := Except.ok.inj (hload.symm.trans hload')
    cases hplanner.symm.trans hplanner'
  · obtain rfl := Except.ok.inj (hload.symm.trans hload')
    obtain rfl := Except.ok.inj (hplanner.symm.trans hplanner')
    by_cases hname : name ∈ builtIn.uncheckedPlanner.catalog.commands.map (·.name)
    · obtain ⟨plan, hplan⟩ := Config.plan_of_knows hparents (List.forall_mem_nil _) {}
      have hlist : showCommands { files := .empty } {} =
          .ok (Report.commandList plan builtIn.uncheckedPlanner.catalog) := by
        rw [showCommands_eq hload hplanner]
        change Except.map _ (Except.mapError _ (builtIn.uncheckedPlanner.plan [] {})) = _
        rw [hplan]
        rfl
      obtain ⟨-, text, -, -, htext, -⟩ := (hshows name).listed hname {} _ hlist
      exact .inr ⟨text, htext⟩
    · exact .inl ((hshows name).unknown hname [])

end Program

end Checkup
