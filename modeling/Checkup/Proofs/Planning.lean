import Checkup.Proofs.Maps
import Checkup.Proofs.Parents
import Checkup.Proofs.Traversal

/-!
# Planning after validation

A configuration without problems gives a planner that can only fail on identifiers
that somebody made up: `plan_fails_only_on_unknown`. The parts:

* `Sources.asks` — what is asked of the planner, source by source; the plans of sources are the
  answers (`Sources.plans_eq`, `Sources.plans_eq_ok_iff`, `Sources.plans_eq_error_iff`).
* `Config.FirstUnknown` — the identifier that an error names.
* `activeContexts_of_knows`, `activeContexts_of_firstUnknown` — how a request is
  expanded.
* `plan_of_knows`, `plan_of_firstUnknown` — which plans fail, and how; also those of the
  configured sources.
* `settled` — a request either is known or has a first unknown identifier, never both.
-/

namespace Checkup

/-! ## Plans in two steps -/

/-- The plan under active contexts. -/
def Planner.planUnder (p : Planner) (filter : Filter) (active : List Context) : Plan where
  activeContexts := active.map (·.name)
  entries := p.catalog.commands.filterMap fun command =>
    let e := entry active command
    if e.selectedBy.isEmpty || !filter.permits command.name then none else some e

/-- Only the expansion of the request can fail. -/
theorem Planner.plan_eq (p : Planner) (requested : List String) (filter : Filter) :
    p.plan requested filter = (p.activeContexts requested).map (p.planUnder filter) := by
  rw [Planner.plan]
  cases p.activeContexts requested <;> rfl

/-! ## What is asked of the planner -/

/-- What is asked of the planner for one source. -/
structure Sources.Ask where
  /-- the source -/
  source : String
  /-- the contexts to plan for -/
  contexts : List String
  /-- the commands that may run -/
  filter : Filter

/-- What is asked for a configured source. Its contexts come after those of the request, and its
lists after those of the filter. -/
def Sources.Ask.configured (contexts : List String) (filter : Filter)
    (entry : String × SourceSettings) : Sources.Ask where
  source := entry.1
  contexts := contexts ++ entry.2.contexts
  filter := ⟨filter.allow ++ entry.2.allow, filter.deny ++ entry.2.deny⟩

namespace Planner

variable {p : Planner} {ask : Sources.Ask}

/-- The answer of a planner for one source. -/
def answer (p : Planner) (ask : Sources.Ask) : Except ResolveError SourcePlan :=
  (p.plan ask.contexts ask.filter).map (SourcePlan.mk ask.source)

/-- An answer has the plan for its source. -/
theorem answer_eq_ok_iff {plan : SourcePlan} :
    p.answer ask = .ok plan ↔
      p.plan ask.contexts ask.filter = .ok plan.plan ∧ plan.source = ask.source := by
  obtain ⟨source, plan⟩ := plan
  rw [answer]
  cases p.plan ask.contexts ask.filter <;> simp [Except.map, and_comm, eq_comm]

/-- There is none just if there is no plan. -/
theorem answer_eq_error_iff {e : ResolveError} :
    p.answer ask = .error e ↔ p.plan ask.contexts ask.filter = .error e := by
  rw [answer]
  cases p.plan ask.contexts ask.filter <;> simp [Except.map]

/-- There is one just if there is a plan. -/
theorem exists_answer_iff :
    (∃ plan, p.answer ask = .ok plan) ↔ ∃ plan, p.plan ask.contexts ask.filter = .ok plan := by
  rw [answer]
  cases p.plan ask.contexts ask.filter <;> simp [Except.map]

end Planner

namespace Sources

/-- What is asked of the planner: the given sources, each once, as they are; without any, the
configured ones with their own contexts and lists added. -/
def asks (sources : Sources) (given contexts : List String) (filter : Filter) : List Ask :=
  if given.isEmpty then sources.entries.map (.configured contexts filter)
  else (distinct given).map fun source => ⟨source, contexts, filter⟩

/-- There is nothing to ask just if no source is given and none is configured. -/
theorem asks_eq_nil_iff {sources : Sources} {given contexts : List String} {filter : Filter} :
    sources.asks given contexts filter = [] ↔ given = [] ∧ sources.entries = [] := by
  cases given with
  | nil => simp [asks]
  | cons source rest => simp [asks, distinct_cons]

/-- **Plans are the answers** to what is asked, if there is anything to ask. -/
theorem plans_eq (sources : Sources) (p : Planner) (given contexts : List String)
    (filter : Filter) :
    sources.plans p given contexts filter =
      if (sources.asks given contexts filter).isEmpty then .ok none
      else ((sources.asks given contexts filter).mapM p.answer).map some := by
  cases given with
  | nil =>
    have hasks : sources.asks [] contexts filter =
        sources.entries.map (.configured contexts filter) := rfl
    have hanswer : (fun (e : String × SourceSettings) => do
        let plan ← p.plan (contexts ++ e.2.contexts) (filter.combine e.2.filter)
        return { source := e.1, plan }) = p.answer ∘ Ask.configured contexts filter := by
      funext e
      exact (map_eq_bind ..).symm
    rw [hasks, List.isEmpty_map, List.mapM_map, map_eq_bind, ← hanswer]
    rfl
  | cons source rest =>
    have hasks : sources.asks (source :: rest) contexts filter =
        (distinct (source :: rest)).map fun source => ⟨source, contexts, filter⟩ := rfl
    have hempty : (distinct (source :: rest)).isEmpty = false := rfl
    have hanswer : (fun source => do return { source, plan := ← p.plan contexts filter }) =
        p.answer ∘ fun source => (⟨source, contexts, filter⟩ : Ask) := by
      funext source
      exact (map_eq_bind ..).symm
    rw [hasks, List.isEmpty_map, hempty, List.mapM_map, map_eq_bind, ← hanswer]
    rfl

variable {sources : Sources} {p : Planner} {given contexts : List String} {filter : Filter}

/-- There is nothing to plan for just if no source is given and none is configured. -/
theorem plans_eq_none_iff : sources.plans p given contexts filter = .ok none ↔
    given = [] ∧ sources.entries = [] := by
  rw [← @asks_eq_nil_iff sources given contexts filter, plans_eq]
  split
  · simp_all
  · cases (sources.asks given contexts filter).mapM p.answer <;> simp_all [Except.map]

/-- Otherwise all that is asked has to be answered. -/
theorem plans_eq_ok_iff {made : List SourcePlan} :
    sources.plans p given contexts filter = .ok (some made) ↔
      sources.asks given contexts filter ≠ [] ∧
        (sources.asks given contexts filter).mapM p.answer = .ok made := by
  rw [plans_eq]
  split
  · simp_all
  · cases (sources.asks given contexts filter).mapM p.answer <;> simp_all [Except.map]

/-- The first ask that is not answered makes all fail. -/
theorem plans_eq_error_iff {e : ResolveError} :
    sources.plans p given contexts filter = .error e ↔
      (sources.asks given contexts filter).mapM p.answer = .error e := by
  rw [plans_eq]
  split
  · simp_all [pure, Except.pure]
  · cases (sources.asks given contexts filter).mapM p.answer <;> simp [Except.map]

/-- Plans are made for distinct sources. -/
theorem nodup_of_plans {plans : List SourcePlan}
    (h : sources.plans p given contexts filter = .ok (some plans)) :
    (plans.map (·.source)).Nodup := by
  obtain ⟨-, hmade⟩ := plans_eq_ok_iff.mp h
  rw [map_eq_of_mapM hmade fun ask plan hplan => (Planner.answer_eq_ok_iff.mp hplan).2, asks]
  -- given sources are asked for once each, configured ones have distinct paths
  split
  · rw [List.map_map]
    exact sources.nodup
  · rw [List.map_map]
    exact (List.map_id _).symm ▸ nodup_distinct given

end Sources

namespace Config

/-- The first identifier of a request that no context has as its name or alias. -/
def FirstUnknown (c : Config) (requested : List String) (identifier : String) : Prop :=
  ∃ before after : List String, requested = before ++ identifier :: after ∧
    (∀ known ∈ before, c.Knows known) ∧ ¬ c.Knows identifier

variable {c : Config}

/-- A request with an unknown identifier has a first one. -/
theorem knows_or_firstUnknown (requested : List String) :
    (∀ identifier ∈ requested, c.Knows identifier) ∨
      ∃ identifier, c.FirstUnknown requested identifier := by
  induction requested with
  | nil => exact .inl (by simp)
  | cons first rest ih =>
    -- the first unknown identifier is one of the rest, or this one
    by_cases hfirst : c.Knows first
    · rcases ih with hall | ⟨identifier, before, after, rfl, hbefore, hunknown⟩
      · exact .inl (List.forall_mem_cons.mpr ⟨hfirst, hall⟩)
      · exact .inr ⟨identifier, first :: before, after, rfl,
          List.forall_mem_cons.mpr ⟨hfirst, hbefore⟩, hunknown⟩
    · exact .inr ⟨first, [], rest, rfl, by simp, hfirst⟩

theorem FirstUnknown.not_knows {requested : List String} {identifier : String}
    (h : c.FirstUnknown requested identifier) : ¬ ∀ id ∈ requested, c.Knows id := by
  obtain ⟨before, after, rfl, -, hunknown⟩ := h
  exact fun hall => hunknown (hall identifier (by simp))

/-- What is asked for after the first unknown identifier does not matter. -/
theorem FirstUnknown.append {requested : List String} {identifier : String}
    (h : c.FirstUnknown requested identifier) (more : List String) :
    c.FirstUnknown (requested ++ more) identifier := by
  obtain ⟨before, after, rfl, hbefore, hunknown⟩ := h
  exact ⟨before, after ++ more, by simp, hbefore, hunknown⟩

/-- What there is to plan with, whether or not the configuration is valid. -/
def uncheckedPlanner (c : Config) : Planner := ⟨c.registry, c.catalog⟩

/-! ## Active contexts -/

theorem roots_of_knows {requested : List String} (h : ∀ id ∈ requested, c.Knows id) :
    ∃ roots, c.uncheckedPlanner.roots requested = .ok roots ∧ ∀ x ∈ roots, x ∈ c.contextList := by
  rw [Planner.roots]
  -- without a request the default contexts are meant
  by_cases hempty : requested.isEmpty
  · rw [if_pos hempty]
    refine ⟨_, rfl, fun x hx => ?_⟩
    rw [← contexts_registry]
    exact (List.mem_filter.mp hx).1
  · rw [if_neg hempty]
    have hfound : ∀ id ∈ requested, ∃ x ∈ c.contextList, c.registry.resolve id = .ok x := by
      intro id hid
      rcases c.resolve_cases id with ⟨-, hfound⟩ | ⟨hunknown, -⟩
      · exact hfound
      · exact absurd (h id hid) hunknown
    obtain ⟨roots, hroots⟩ := exists_mapM_eq_ok fun id hid =>
      (hfound id hid).imp fun _ hx => hx.2
    refine ⟨roots, hroots, fun x hx => ?_⟩
    obtain ⟨id, hid, hresolve⟩ := exists_of_mem_mapM hroots hx
    obtain ⟨y, hy, hfound⟩ := hfound id hid
    rw [hresolve] at hfound
    exact Except.ok.inj hfound ▸ hy

/-- Without problems with parents a request of known identifiers is expanded. -/
theorem activeContexts_of_knows (hparents : c.parentProblems = []) {requested : List String}
    (h : ∀ id ∈ requested, c.Knows id) :
    ∃ active, c.uncheckedPlanner.activeContexts requested = .ok active := by
  obtain ⟨roots, hroots, hmem⟩ := roots_of_knows h
  have hlineage : ∀ x ∈ roots, ∃ line, c.uncheckedPlanner.lineage x = .ok line := by
    intro x hx
    obtain ⟨above, habove⟩ := ancestors_of_no_problem hparents (hmem x hx)
    refine ⟨x :: above, ?_⟩
    rw [Planner.lineage, uncheckedPlanner, habove]
    rfl
  obtain ⟨lineages, hlineages⟩ := exists_mapM_eq_ok hlineage
  refine ⟨distinctBy (·.name) lineages.flatten, ?_⟩
  rw [Planner.activeContexts, hroots]
  change (roots.mapM c.uncheckedPlanner.lineage >>= _) = _
  rw [hlineages]
  rfl

/-- The first unknown identifier fails the whole request. -/
theorem activeContexts_of_firstUnknown {requested : List String} {identifier : String}
    (h : c.FirstUnknown requested identifier) :
    c.uncheckedPlanner.activeContexts requested = .error (.unknownContext identifier) := by
  obtain ⟨before, after, rfl, hbefore, hunknown⟩ := h
  have hknown : ∀ id ∈ before, ∃ x, c.registry.resolve id = .ok x := by
    intro id hid
    rcases c.resolve_cases id with ⟨-, x, -, hx⟩ | ⟨hne, -⟩
    · exact ⟨x, hx⟩
    · exact absurd (hbefore id hid) hne
  have hfails : c.registry.resolve identifier = .error (.unknownContext identifier) := by
    rcases c.resolve_cases identifier with ⟨hyes, -⟩ | ⟨-, hfails⟩
    · exact absurd hyes hunknown
    · exact hfails
  have hroots : c.uncheckedPlanner.roots (before ++ identifier :: after) =
      .error (.unknownContext identifier) := by
    rw [Planner.roots, if_neg (by simp)]
    exact mapM_eq_error hknown hfails
  rw [Planner.activeContexts, hroots]
  rfl

/-! ## Plans -/

theorem plan_of_knows (hparents : c.parentProblems = []) {requested : List String}
    (h : ∀ id ∈ requested, c.Knows id) (filter : Filter) :
    ∃ plan, c.uncheckedPlanner.plan requested filter = .ok plan := by
  obtain ⟨active, hactive⟩ := activeContexts_of_knows hparents h
  refine ⟨c.uncheckedPlanner.planUnder filter active, ?_⟩
  rw [Planner.plan_eq, hactive]
  rfl

theorem plan_of_firstUnknown {requested : List String} {identifier : String}
    (h : c.FirstUnknown requested identifier) (filter : Filter) :
    c.uncheckedPlanner.plan requested filter = .error (.unknownContext identifier) := by
  rw [Planner.plan_eq, activeContexts_of_firstUnknown h]
  rfl

/-! ## Plans of the configured sources -/

/-- Without problems with sources their contexts are known. -/
theorem knows_of_mem_source (h : c.sourceProblems c.owners = []) {e : String × SourceSettings}
    (he : e ∈ c.sources.entries) : ∀ id ∈ e.2.contexts, c.Knows id := by
  intro id hid
  have hfine := List.filterMap_eq_nil_iff.mp (List.flatMap_eq_nil_iff.mp h e he) id hid
  rw [knows_iff_owned]
  by_contra hne
  simp [hne] at hfine

theorem plans_of_knows (hparents : c.parentProblems = [])
    (hsources : c.sourceProblems c.owners = []) (hsome : c.sources.isEmpty = false)
    {contexts : List String} (h : ∀ id ∈ contexts, c.Knows id) (filter : Filter) :
    ∃ plans, c.sources.plans c.uncheckedPlanner [] contexts filter = .ok (some plans) := by
  have hanswer : ∀ ask ∈ c.sources.asks [] contexts filter,
      ∃ plan, c.uncheckedPlanner.answer ask = .ok plan := by
    intro ask hask
    obtain ⟨e, he, rfl⟩ := List.mem_map.mp hask
    have hknown : ∀ id ∈ contexts ++ e.2.contexts, c.Knows id := by
      intro id hid
      rcases List.mem_append.mp hid with hid | hid
      · exact h id hid
      · exact knows_of_mem_source hsources he id hid
    obtain ⟨plan, hplan⟩ := plan_of_knows hparents hknown _
    exact ⟨⟨e.1, plan⟩, Planner.answer_eq_ok_iff.mpr ⟨hplan, rfl⟩⟩
  obtain ⟨plans, hplans⟩ := exists_mapM_eq_ok hanswer
  refine ⟨plans, Sources.plans_eq_ok_iff.mpr ⟨?_, hplans⟩⟩
  exact fun hnone => List.isEmpty_eq_false_iff.mp hsome (Sources.asks_eq_nil_iff.mp hnone).2

theorem plans_of_firstUnknown (hsome : c.sources.isEmpty = false) {contexts : List String}
    {identifier : String} (h : c.FirstUnknown contexts identifier) (filter : Filter) :
    c.sources.plans c.uncheckedPlanner [] contexts filter =
      .error (.unknownContext identifier) := by
  obtain ⟨e, rest, hentries⟩ := List.exists_cons_of_ne_nil (List.isEmpty_eq_false_iff.mp hsome)
  have hasks : c.sources.asks [] contexts filter =
      .configured contexts filter e :: rest.map (.configured contexts filter) :=
    congrArg (List.map _) hentries
  -- the plan of the first source fails already
  have hfirst : c.uncheckedPlanner.answer (.configured contexts filter e) =
      .error (.unknownContext identifier) :=
    Planner.answer_eq_error_iff.mpr (plan_of_firstUnknown (h.append _) _)
  rw [Sources.plans_eq_error_iff, hasks]
  exact mapM_eq_error (List.forall_mem_nil _) hfirst

/-! ## The planner of a valid configuration -/

/-- The four parts of a validation without problems. -/
theorem problems_eq_nil_iff : c.problems = [] ↔ c.ownership.2 = [] ∧ c.parentProblems = [] ∧
    c.commandProblems c.owners = [] ∧ c.sourceProblems c.owners = [] := by
  simp only [problems, owners, List.append_eq_nil_iff, and_assoc]

theorem planner_of_no_problem (h : c.problems = []) : c.planner = .ok c.uncheckedPlanner := by
  rw [planner, h]
  rfl

/-- What is fine on known requests, and an error on those with a first unknown identifier,
is settled by the request. -/
theorem settled {α : Type} {requested : List String} {result : Except ResolveError α}
    {fine : Prop} (hfine : fine → ∀ e, result ≠ .error e)
    (hok : (∀ id ∈ requested, c.Knows id) → fine)
    (herr : ∀ id, c.FirstUnknown requested id → result = .error (.unknownContext id)) :
    (fine ↔ ∀ id ∈ requested, c.Knows id) ∧
      ∀ e, result = .error e ↔ ∃ id, c.FirstUnknown requested id ∧ e = .unknownContext id := by
  rcases knows_or_firstUnknown (c := c) requested with hall | ⟨first, hfirst⟩
  -- all are known: there is no error
  · refine ⟨⟨fun _ => hall, fun _ => hok hall⟩, fun e => ⟨fun he => ?_, ?_⟩⟩
    · exact absurd he (hfine (hok hall) e)
    · rintro ⟨id, hid, -⟩
      exact absurd hall hid.not_knows
  -- one is unknown: there is no other result than its error
  · refine ⟨⟨fun hf => ?_, fun hall => absurd hall hfirst.not_knows⟩, fun e => ⟨fun he => ?_, ?_⟩⟩
    · exact absurd (herr first hfirst) (hfine hf _)
    · rw [herr first hfirst] at he
      exact ⟨first, hfirst, (Except.error.inj he).symm⟩
    · rintro ⟨id, hid, rfl⟩
      exact herr id hid

/-- **A configuration without problems can be planned with.** Its planner fails exactly on
requests with an identifier that no context has, and names the first; the contexts
that sources ask for never make it fail. Every identifier has at most one context
that answers to it, and resolving finds that one. -/
theorem plan_fails_only_on_unknown {c : Config} (h : c.problems = []) :
    ∃ p, c.planner = .ok p ∧ p.registry.contexts = c.contextList ∧
      (∀ requested filter,
        ((∃ plan, p.plan requested filter = .ok plan) ↔ ∀ id ∈ requested, c.Knows id) ∧
        ∀ e, p.plan requested filter = .error e ↔
          ∃ id, c.FirstUnknown requested id ∧ e = .unknownContext id) ∧
      (∀ filter, ∃ plan, p.plan [] filter = .ok plan) ∧
      (c.sources.isEmpty = false → ∀ contexts filter,
        ((∃ plans, c.sources.plans p [] contexts filter = .ok (some plans)) ↔
          ∀ id ∈ contexts, c.Knows id) ∧
        ∀ e, c.sources.plans p [] contexts filter = .error e ↔
          ∃ id, c.FirstUnknown contexts id ∧ e = .unknownContext id) ∧
      (∀ id, ∀ x ∈ p.registry.contexts, ∀ y ∈ p.registry.contexts,
        x.answersTo id = true → y.answersTo id = true → x = y) ∧
      (∀ id x, p.registry.resolve id = .ok x ↔
        x ∈ p.registry.contexts ∧ x.answersTo id = true) := by
  obtain ⟨haliases, hparents, -, hsources⟩ := problems_eq_nil_iff.mp h
  refine ⟨c.uncheckedPlanner, planner_of_no_problem h, contexts_registry, ?_, ?_, ?_, ?_, ?_⟩
  · intro requested filter
    refine settled ?_ (fun hall => plan_of_knows hparents hall filter)
      (fun id hid => plan_of_firstUnknown hid filter)
    rintro ⟨plan, hplan⟩ e he
    cases hplan.symm.trans he
  · exact fun filter => plan_of_knows hparents (by simp) filter
  · intro hsome contexts filter
    refine settled ?_ (fun hall => plans_of_knows hparents hsources hsome hall filter)
      (fun id hid => plans_of_firstUnknown hsome hid filter)
    rintro ⟨plans, hplans⟩ e he
    cases hplans.symm.trans he
  · intro id
    rw [show c.uncheckedPlanner.registry.contexts = c.contextList from contexts_registry]
    exact eq_of_answersTo haliases
  · intro id x
    rw [show c.uncheckedPlanner.registry.contexts = c.contextList from contexts_registry]
    exact resolve_eq_ok_iff haliases

/-- Two layers of contexts and an alias, which a source asks for. -/
def layered : Config where
  contexts := .ofList [("standard", { isDefault := true }),
    ("strict", { aliases := ["s"], parent := some "standard" })]
  commands := .ofList
    [("mypy", { help := some "Types", contexts := .ofList [("strict", .flag true)] })]
  sources := .ofList [("tests", { contexts := ["s"] })]

theorem plan_fails_only_on_unknown_layered : layered.problems = [] ∧
    ∃ p, layered.planner = .ok p ∧ (∃ plan, p.plan ["s", "standard"] {} = .ok plan) ∧
      p.plan ["s", "ghost", "spook"] {} = .error (.unknownContext "ghost") ∧
      ∃ plans, layered.sources.plans p [] ["strict"] {} = .ok (some plans) := by
  have hfine : layered.problems = [] := by decide +kernel
  have hknows : ∀ id ∈ ["s", "standard", "strict"], layered.Knows id := by
    intro id hid
    rw [knows_iff_owned]
    revert id
    decide +kernel
  have hghost : ¬ layered.Knows "ghost" := by
    rw [knows_iff_owned]
    decide +kernel
  obtain ⟨p, hp, -, hplan, -, hplans, -, -⟩ := plan_fails_only_on_unknown hfine
  refine ⟨hfine, p, hp, (hplan _ _).1.mpr ?_, ((hplan _ _).2 _).mpr ?_, (hplans ?_ _ _).1.mpr ?_⟩
  · simpa using ⟨hknows "s" (by simp), hknows "standard" (by simp)⟩
  · exact ⟨"ghost", ⟨["s"], ["spook"], rfl, by simpa using hknows "s" (by simp), hghost⟩, rfl⟩
  · decide +kernel
  · simpa using hknows "strict" (by simp)

end Config

end Checkup
