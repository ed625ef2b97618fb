import Checkup.Proofs.Resolution

/-!
# Filters and the plans of sources

What filters leave of a plan, and which plans are made for which sources:

* `Filter.permits_combine_iff` — what two filters permit together.
* `Planner.plan_eq_restrict` — a plan with a filter is restricted from the one without.
* `Sources.plans_given`, `Sources.plans_configured_eq_ok_iff`,
  `Sources.plans_configured_eq_error_iff` — the plans of given and of configured sources.
* `Sources.plans_source_by_source` — all that planning for sources comes to.
* `Sources.combined_filters_decide` — all that combined filters come to, on sources as well.
-/

namespace Checkup

/-! ## Filters -/

namespace Filter

theorem permits_iff {f : Filter} {name : String} :
    f.permits name = true ↔ name ∉ f.deny ∧ (f.allow = [] ∨ name ∈ f.allow) := by
  simp [permits]

/-- **Two filters together** permit what neither of them denies, if one of them allows it or
neither says what is allowed. -/
theorem permits_combine_iff {f g : Filter} {name : String} :
    (f.combine g).permits name = true ↔
      (name ∉ f.deny ∧ name ∉ g.deny) ∧
        (f.allow = [] ∧ g.allow = [] ∨ name ∈ f.allow ∨ name ∈ g.allow) := by
  simp [permits_iff, combine]

theorem permits_combine_comm (f g : Filter) : (g.combine f).permits = (f.combine g).permits := by
  funext name
  rw [Bool.eq_iff_iff, permits_combine_iff, permits_combine_iff, and_comm (a := name ∉ g.deny),
    and_comm (a := g.allow = []), or_comm (a := name ∈ g.allow)]

theorem combine_assoc (f g h : Filter) : (f.combine g).combine h = f.combine (g.combine h) := by
  simp [combine]

theorem combine_empty (f : Filter) : f.combine {} = f := by
  simp [combine]

theorem empty_combine (f : Filter) : ({} : Filter).combine f = f := rfl

end Filter

/-- What is left of a plan if only some commands may run. -/
def Plan.restrict (plan : Plan) (filter : Filter) : Plan where
  activeContexts := plan.activeContexts
  entries := plan.entries.filter fun e => filter.permits e.command

namespace Planner

variable {p : Planner} {requested : List String} {filter : Filter}

/-- Whether a command may run does not matter for the rest of the plan. -/
theorem planUnder_eq_restrict (p : Planner) (filter : Filter) (active : List Context) :
    p.planUnder filter active = (p.planUnder {} active).restrict filter := by
  refine congrArg (Plan.mk _) ?_
  rw [planUnder, List.filter_filterMap]
  refine List.filterMap_congr fun command _ => ?_
  have hall : ({} : Filter).permits command.name = true := rfl
  cases hselected : (entry active command).selectedBy.isEmpty with
  | true => simp [hselected]
  | false =>
    have hname : (entry active command).command = command.name := rfl
    cases hpermits : filter.permits command.name <;>
      simp [hselected, hall, hname, hpermits, Option.filter]

/-- **Filtering commutes with planning**: the plan is the one without a filter, restricted. -/
theorem plan_eq_restrict (p : Planner) (requested : List String) (filter : Filter) :
    p.plan requested filter = (p.plan requested {}).map fun plan => plan.restrict filter := by
  rw [plan_eq, plan_eq]
  cases p.activeContexts requested with
  | error e => rfl
  | ok active => exact congrArg Except.ok (p.planUnder_eq_restrict filter active)

/-- What is planned may run. -/
theorem permits_of_mem_plan {plan : Plan} (h : p.plan requested filter = .ok plan)
    {e : Plan.Entry} (he : e ∈ plan.entries) : filter.permits e.command = true := by
  obtain ⟨active, -, rfl⟩ := plan_eq_ok_iff.mp h
  rw [planUnder_eq_restrict] at he
  exact (List.mem_filter.mp he).2

end Planner

/-! ## Plans of sources -/

namespace Sources

open Planner (ofRegistered siblings checks strictPlan)

variable {sources : Sources} {p : Planner} {given contexts : List String} {filter : Filter}

/-- Given sources share one plan. -/
theorem plans_given (h : given ≠ []) :
    sources.plans p given contexts filter =
      (p.plan contexts filter).map fun plan =>
        some (given.eraseDups.map fun source => ⟨source, plan⟩) := by
  have hsources : given.eraseDups = distinct given := (distinctBy_eq_eraseDups (by simp)).symm
  have hasks : sources.asks given contexts filter =
      (distinct given).map fun source => ⟨source, contexts, filter⟩ :=
    if_neg (by simpa using h)
  have hsome : sources.asks given contexts filter ≠ [] := fun hnone =>
    h (asks_eq_nil_iff.mp hnone).1
  -- all answers are the same, so the first one decides
  cases hplan : p.plan contexts filter with
  | ok plan =>
    refine plans_eq_ok_iff.mpr ⟨hsome, ?_⟩
    rw [hasks, List.mapM_map, hsources]
    refine mapM_eq_ok_map_iff.mpr fun source _ => ?_
    exact Planner.answer_eq_ok_iff.mpr ⟨hplan, rfl⟩
  | error e =>
    obtain ⟨source, rest, rfl⟩ := List.exists_cons_of_ne_nil h
    rw [Except.map, plans_eq_error_iff, hasks, distinct_cons, List.map_cons]
    exact mapM_eq_error (List.forall_mem_nil _) (Planner.answer_eq_error_iff.mpr hplan)

/-- Without given sources the configured ones are planned, each for itself and in their order. -/
theorem plans_configured_eq_ok_iff {made : List SourcePlan} :
    sources.plans p [] contexts filter = .ok (some made) ↔
      sources.entries ≠ [] ∧ List.Forall₂
        (fun entry x => p.answer (.configured contexts filter entry) = .ok x)
        sources.entries made := by
  have hasks : sources.asks [] contexts filter =
      sources.entries.map (.configured contexts filter) := rfl
  rw [plans_eq_ok_iff, mapM_eq_ok_iff, hasks, List.forall₂_map_left_iff, ne_eq, List.map_eq_nil_iff]

/-- The first one whose plan fails makes all fail. -/
theorem plans_configured_eq_error_iff {e : ResolveError} :
    sources.plans p [] contexts filter = .error e ↔
      ∃ before entry after, sources.entries = before ++ entry :: after ∧
        (∀ other ∈ before, ∃ x, p.answer (.configured contexts filter other) = .ok x) ∧
        p.answer (.configured contexts filter entry) = .error e := by
  have hasks : sources.asks [] contexts filter =
      sources.entries.map (.configured contexts filter) := rfl
  rw [plans_eq_error_iff, hasks, List.mapM_map]
  exact mapM_eq_error_iff

/-- **Planning for sources is exact**, whatever is registered, configured, given and asked for.

* There is no answer just if no source is given and none is configured.
* Given sources are listed once each, by first occurrence, all with the plan that is asked for; if
  that fails, so does everything.
* Without them every configured source is listed, in declaration order. Its contexts come after
  those that are asked for, and what it allows and denies is added to both lists of the filter. The
  first plan that fails is the error.
* No source is listed twice.
* A given source that is configured without settings has the plan that it has without being
  given. -/
theorem plans_source_by_source (sources : Sources) (p : Planner) (given contexts : List String)
    (filter : Filter) :
    (sources.plans p given contexts filter = .ok none ↔ given = [] ∧ sources.entries = []) ∧
    (given ≠ [] → sources.plans p given contexts filter =
      (p.plan contexts filter).map fun plan =>
        some (given.eraseDups.map fun source => ⟨source, plan⟩)) ∧
    (∀ plans, sources.plans p [] contexts filter = .ok (some plans) ↔
      sources.entries ≠ [] ∧ List.Forall₂
        (fun entry x => p.plan (contexts ++ entry.2.contexts)
            ⟨filter.allow ++ entry.2.allow, filter.deny ++ entry.2.deny⟩ = .ok x.plan ∧
          x.source = entry.1)
        sources.entries plans) ∧
    (∀ e, sources.plans p [] contexts filter = .error e ↔
      ∃ before entry after, sources.entries = before ++ entry :: after ∧
        (∀ other ∈ before, ∃ plan, p.plan (contexts ++ other.2.contexts)
          ⟨filter.allow ++ other.2.allow, filter.deny ++ other.2.deny⟩ = .ok plan) ∧
        p.plan (contexts ++ entry.2.contexts)
          ⟨filter.allow ++ entry.2.allow, filter.deny ++ entry.2.deny⟩ = .error e) ∧
    (∀ plans, sources.plans p given contexts filter = .ok (some plans) →
      (plans.map (·.source)).Nodup) ∧
    ∀ source ∈ given, sources.get? source = some {} → ∀ configured,
      sources.plans p [] contexts filter = .ok (some configured) →
      ∃ plans, sources.plans p given contexts filter = .ok (some plans) ∧
        ∃ x ∈ plans, x.source = source ∧ x ∈ configured := by
  refine ⟨plans_eq_none_iff, plans_given, fun plans => ?_, fun e => ?_, fun _ => nodup_of_plans, ?_⟩
  · simp only [plans_configured_eq_ok_iff, Planner.answer_eq_ok_iff]
    rfl
  · simp only [plans_configured_eq_error_iff, Planner.exists_answer_iff,
      Planner.answer_eq_error_iff]
    rfl
  intro source hgiven hsettings configured hconfigured
  obtain ⟨-, hall⟩ := plans_configured_eq_ok_iff.mp hconfigured
  obtain ⟨x, hx, hanswer⟩ :=
    exists_of_mem_forall₂ hall.flip (OrderedMap.get?_eq_some_iff.mp hsettings)
  obtain ⟨hplan, hsource⟩ := Planner.answer_eq_ok_iff.mp hanswer
  have hplain : Ask.configured contexts filter (source, {}) = ⟨source, contexts, filter⟩ := by
    simp [Ask.configured]
  rw [hplain] at hplan
  have hplans : sources.plans p given contexts filter =
      .ok (some (given.eraseDups.map fun source => ⟨source, x.plan⟩)) := by
    rw [plans_given (List.ne_nil_of_mem hgiven), hplan]
    rfl
  refine ⟨_, hplans, x, List.mem_map.mpr ⟨source, List.mem_eraseDups.mpr hgiven, ?_⟩, hsource, hx⟩
  obtain rfl : x.source = source := hsource
  rfl

/-- Two sources, the first one without settings. -/
def twoSources : Sources :=
  .ofList [("src", {}),
    ("tests", { contexts := ["s"], allow := ["black", "mypy"], deny := ["black"] })]

theorem plans_source_by_source_twoSources :
    twoSources.plans (ofRegistered siblings checks) ["tests", "src", "tests"] ["strict"] {} =
      .ok (some [⟨"tests", strictPlan⟩, ⟨"src", strictPlan⟩]) ∧
    twoSources.plans (ofRegistered siblings checks) ["src"] ["ghost"] {} =
      .error (.unknownContext "ghost") ∧
    twoSources.plans (ofRegistered siblings checks) [] ["strict"] {} =
      .ok (some [⟨"src", strictPlan⟩,
        ⟨"tests", { activeContexts := ["strict", "standard"]
                    entries := [{ command := "mypy", args := [], selectedBy := ["strict"] }] }⟩]) ∧
    twoSources.plans (ofRegistered siblings checks) [] ["strict"] { allow := ["bandit"] } =
      .ok (some
        [⟨"src", { activeContexts := ["strict", "standard"]
                   entries := [{ command := "bandit", args := [], selectedBy := ["standard"] }] }⟩,
        ⟨"tests", { activeContexts := ["strict", "standard"]
                    entries := [{ command := "mypy", args := [], selectedBy := ["strict"] },
                      { command := "bandit", args := [], selectedBy := ["standard"] }] }⟩]) ∧
    ∃ plans, twoSources.plans (ofRegistered siblings checks) ["src"] ["strict"] {} =
      .ok (some plans) ∧ ∃ x ∈ plans, x.source = "src" := by
  have hexact := plans_source_by_source twoSources (ofRegistered siblings checks)
  have hentries : twoSources.entries = [("src", {}),
      ("tests", { contexts := ["s"], allow := ["black", "mypy"], deny := ["black"] })] := by
    decide +kernel
  have hconfigured : twoSources.plans (ofRegistered siblings checks) [] ["strict"] {} =
      .ok (some [⟨"src", strictPlan⟩,
        ⟨"tests", { activeContexts := ["strict", "standard"]
                    entries := [{ command := "mypy", args := [],
                                  selectedBy := ["strict"] }] }⟩]) := by
    obtain ⟨-, -, hmade, -⟩ := hexact [] ["strict"] {}
    refine (hmade _).mpr ⟨by decide +kernel, ?_⟩
    rw [hentries]
    exact .cons ⟨by decide +kernel, rfl⟩ (.cons ⟨by decide +kernel, rfl⟩ .nil)
  refine ⟨?_, ?_, hconfigured, ?_, ?_⟩
  · obtain ⟨-, hgiven, -⟩ := hexact ["tests", "src", "tests"] ["strict"] {}
    exact (hgiven (by decide)).trans (by decide +kernel)
  · obtain ⟨-, hgiven, -⟩ := hexact ["src"] ["ghost"] {}
    exact (hgiven (by decide)).trans (by decide +kernel)
  · -- the lists of the second source widen what may run on it
    obtain ⟨-, -, hmade, -⟩ := hexact [] ["strict"] { allow := ["bandit"] }
    refine (hmade _).mpr ⟨by decide +kernel, ?_⟩
    rw [hentries]
    exact .cons ⟨by decide +kernel, rfl⟩ (.cons ⟨by decide +kernel, rfl⟩ .nil)
  · obtain ⟨-, -, -, -, -, halike⟩ := hexact ["src"] ["strict"] {}
    obtain ⟨plans, hplans, x, hx, hsource, -⟩ :=
      halike "src" List.mem_cons_self (by decide +kernel) _ hconfigured
    exact ⟨plans, hplans, x, hx, hsource⟩

/-! ## Combined filters -/

/-- Every listed source has the plan that was made for it. -/
theorem plan_of_mem_plans {made : List SourcePlan}
    (h : sources.plans p given contexts filter = .ok (some made)) {x : SourcePlan} (hx : x ∈ made) :
    (given ≠ [] → p.plan contexts filter = .ok x.plan) ∧
    (given = [] → ∃ settings, sources.get? x.source = some settings ∧
      p.plan (contexts ++ settings.contexts)
        ⟨filter.allow ++ settings.allow, filter.deny ++ settings.deny⟩ = .ok x.plan) := by
  constructor
  · intro hgiven
    rw [plans_given hgiven] at h
    cases hplan : p.plan contexts filter with
    | error e =>
      rw [hplan] at h
      cases h
    | ok plan =>
      rw [hplan] at h
      obtain rfl := Option.some.inj (Except.ok.inj h)
      obtain ⟨source, -, rfl⟩ := List.mem_map.mp hx
      rfl
  · rintro rfl
    obtain ⟨-, hall⟩ := plans_configured_eq_ok_iff.mp h
    obtain ⟨⟨path, settings⟩, he, hanswer⟩ := exists_of_mem_forall₂ hall hx
    obtain ⟨hplan, hsource⟩ := Planner.answer_eq_ok_iff.mp hanswer
    exact ⟨settings, OrderedMap.get?_eq_some_iff.mpr (hsource ▸ he), hplan⟩

/-- What is denied on the command line runs on no source. -/
theorem not_denied_of_mem_plans {made : List SourcePlan}
    (h : sources.plans p given contexts filter = .ok (some made)) {x : SourcePlan} (hx : x ∈ made) :
    ∀ e ∈ x.plan.entries, e.command ∉ filter.deny := by
  intro e he hdenied
  obtain ⟨hgiven, hconfigured⟩ := plan_of_mem_plans h hx
  by_cases hnone : given = []
  · obtain ⟨settings, -, hplan⟩ := hconfigured hnone
    exact (Filter.permits_iff.mp (Planner.permits_of_mem_plan hplan he)).1
      (List.mem_append_left _ hdenied)
  · exact (Filter.permits_iff.mp (Planner.permits_of_mem_plan (hgiven hnone) he)).1 hdenied

/-- What a configured source denies does not run on it, if it is planned as configured. -/
theorem not_denied_by_settings {made : List SourcePlan}
    (h : sources.plans p [] contexts filter = .ok (some made)) {x : SourcePlan} (hx : x ∈ made) :
    ∃ settings, sources.get? x.source = some settings ∧
      ∀ e ∈ x.plan.entries, e.command ∉ settings.deny := by
  obtain ⟨settings, hsettings, hplan⟩ := (plan_of_mem_plans h hx).2 rfl
  refine ⟨settings, hsettings, fun e he hdenied => ?_⟩
  exact (Filter.permits_iff.mp (Planner.permits_of_mem_plan hplan he)).1
    (List.mem_append_right _ hdenied)

/-- **Combined filters decide what is planned**, and nothing else.

* Filtering makes no request fail, and helps none that fails.
* Of the plan without a filter those entries stay, as they are and in their order, whose commands
  neither filter denies and, unless neither says what is allowed, one of them allows.
* Filters can be grouped and exchanged, and one that says nothing changes nothing.
* What is denied on the command line is in the plan of no source. What a source denies in its
  settings is not in its plan if the configured sources are planned; the plan of given sources is
  filtered on the command line alone. -/
theorem combined_filters_decide (p : Planner) (requested : List String) (f g : Filter) :
    (∀ e, p.plan requested (f.combine g) = .error e ↔ p.plan requested {} = .error e) ∧
    (∀ plan, p.plan requested {} = .ok plan →
      p.plan requested (f.combine g) = .ok
        { activeContexts := plan.activeContexts
          entries := plan.entries.filter fun e =>
            (e.command ∉ f.deny ∧ e.command ∉ g.deny) ∧
              (f.allow = [] ∧ g.allow = [] ∨ e.command ∈ f.allow ∨ e.command ∈ g.allow) }) ∧
    (∀ h, (f.combine g).combine h = f.combine (g.combine h)) ∧
    f.combine {} = f ∧ ({} : Filter).combine f = f ∧
    p.plan requested (g.combine f) = p.plan requested (f.combine g) ∧
    ∀ (sources : Sources) (given contexts : List String) (made : List SourcePlan),
      sources.plans p given contexts f = .ok (some made) → ∀ x ∈ made,
        (∀ e ∈ x.plan.entries, e.command ∉ f.deny) ∧
        (given = [] → ∃ settings, sources.get? x.source = some settings ∧
          ∀ e ∈ x.plan.entries, e.command ∉ settings.deny) ∧
        (given ≠ [] → p.plan contexts f = .ok x.plan) := by
  refine ⟨fun e => ?_, fun plan hplan => ?_, f.combine_assoc g, f.combine_empty, f.empty_combine,
    ?_, fun sources given contexts made hmade x hx => ⟨?_, ?_, ?_⟩⟩
  · rw [p.plan_eq_restrict]
    cases p.plan requested {} <;> simp [Except.map]
  · rw [p.plan_eq_restrict, hplan]
    refine congrArg (fun entries => Except.ok (Plan.mk _ entries)) ?_
    refine List.filter_congr fun e _ => ?_
    rw [Bool.eq_iff_iff, decide_eq_true_iff, Filter.permits_combine_iff]
  · rw [p.plan_eq_restrict, p.plan_eq_restrict requested (f.combine g)]
    simp only [Plan.restrict, f.permits_combine_comm g]
  · exact not_denied_of_mem_plans hmade hx
  · rintro rfl
    exact not_denied_by_settings hmade hx
  · exact (plan_of_mem_plans hmade hx).1

/-- One source, with settings that deny a command. -/
def denying : Sources := .ofList [("src", { deny := ["mypy"] })]

theorem combined_filters_decide_denying :
    (∃ plan, (ofRegistered siblings checks).plan ["strict"] {} = .ok plan ∧
      plan.commandNames = ["black", "mypy", "bandit"]) ∧
    (∃ plan, (ofRegistered siblings checks).plan ["strict"]
        (Filter.combine { allow := ["mypy"] } { allow := ["black", "bandit"], deny := ["bandit"] }) =
          .ok plan ∧ plan.commandNames = ["black", "mypy"]) ∧
    ∃ x, denying.plans (ofRegistered siblings checks) [] ["strict"] {} = .ok (some [x]) ∧
      ∀ e ∈ x.plan.entries, e.command ∉ ["mypy"] := by
  have hplan : (ofRegistered siblings checks).plan ["strict"] {} = .ok strictPlan := by
    decide +kernel
  refine ⟨⟨strictPlan, hplan, by decide⟩, ?_, ?_⟩
  · obtain ⟨-, hfiltered, -⟩ := combined_filters_decide (ofRegistered siblings checks) ["strict"]
      { allow := ["mypy"] } { allow := ["black", "bandit"], deny := ["bandit"] }
    exact ⟨_, hfiltered strictPlan hplan, by decide⟩
  · obtain ⟨-, -, -, -, -, -, hdenied⟩ :=
      combined_filters_decide (ofRegistered siblings checks) ["strict"] {} {}
    have hmade : denying.plans (ofRegistered siblings checks) [] ["strict"] {} =
        .ok (some [⟨"src", strictPlan.restrict { deny := ["mypy"] }⟩]) := by decide +kernel
    refine ⟨_, hmade, ?_⟩
    obtain ⟨settings, hsettings, hruns⟩ :=
      (hdenied denying [] ["strict"] _ hmade _ List.mem_cons_self).2.1 rfl
    obtain rfl : { deny := ["mypy"] } = settings := Option.some.inj hsettings
    exact hruns

/-- Settings do not keep a command from a source that is given. -/
theorem denied_by_settings_runs_on_given :
    ∃ settings plan, denying.get? "src" = some settings ∧
      denying.plans (ofRegistered siblings checks) ["src"] ["strict"] {} =
        .ok (some [⟨"src", plan⟩]) ∧
      ∃ e ∈ plan.entries, e.command ∈ settings.deny := by
  refine ⟨{ deny := ["mypy"] }, strictPlan, by decide +kernel, by decide +kernel, ?_⟩
  exact ⟨{ command := "mypy", args := [], selectedBy := ["strict"] }, by decide, by decide⟩

end Sources

end Checkup
