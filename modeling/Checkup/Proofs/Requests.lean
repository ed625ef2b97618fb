import Checkup.Proofs.Expansion

/-!
# Requests that ask for the same

What a plan hangs on is the contexts that are asked for, not how they are called:

* `Planner.requests_rewritten` — a request written with other identifiers for the same contexts,
  with the defaults spelled out, or with all active contexts, has the same plan or error.
* `Planner.AsksAlike` — requests for the same contexts in any order, however often.
* `Planner.perm_of_expand`, `Planner.effectiveArgs_of_perm` — what such requests make active, and
  what does not hang on its order.
* `Planner.order_decides_arguments` — such requests have plans of the same commands; only
  arguments that several contexts patch may differ.
-/

namespace Checkup.Planner

variable {p : Planner} {requested others : List String} {roots active active' : List Context}
  {filter : Filter}

/-! ## Other identifiers -/

/-- What an identifier may be rewritten to: itself, or the name of the context that it is
resolved to. -/
inductive Rewrites (r : Registry) : String → String → Prop
  /-- it stays -/
  | stays (identifier : String) : Rewrites r identifier identifier
  /-- the name takes its place -/
  | named {identifier : String} {c : Context} :
      r.resolve identifier = .ok c → Rewrites r identifier c.name

theorem mem_contexts_of_roots (hr : p.registry.Indexed) (h : p.roots requested = .ok roots) :
    ∀ c ∈ roots, c ∈ p.registry.contexts :=
  (asked_of_roots hr h).mem_contexts

/-- Only the empty request asks for nothing. -/
theorem eq_nil_of_roots (h : p.roots requested = .ok []) : requested = [] := by
  by_contra hne
  rw [Planner.roots, if_neg (by simpa using hne)] at h
  have hlength := (forall₂_of_mapM h).length_eq
  exact hne (List.length_eq_zero_iff.mp hlength)

/-- Rewritten identifiers ask for the same contexts, or fail in the same way. -/
theorem roots_of_rewrites (hr : p.registry.Indexed)
    (h : List.Forall₂ (Rewrites p.registry) requested others) :
    p.roots others = p.roots requested := by
  have hresolve : List.Forall₂ (fun id id' => p.registry.resolve id = p.registry.resolve id')
      requested others := by
    refine h.imp fun id id' hid => ?_
    cases hid with
    | stays => rfl
    | @named c hc =>
      have hmem : c ∈ p.registry.contexts := mem_of_means (hc ▸ hr.means_resolve id)
      rw [hc, hr.resolve_name hmem]
  cases h with
  | nil => rfl
  | cons _ _ =>
    rw [Planner.roots, Planner.roots, if_neg (by simp), if_neg (by simp),
      mapM_eq_of_forall₂ hresolve]

/-- The default contexts can be asked for by their names. -/
theorem roots_defaults (hr : p.registry.Indexed) :
    p.roots (p.registry.defaults.map (·.name)) = p.roots [] := by
  by_cases hnone : p.registry.defaults = []
  · rw [hnone]
    rfl
  · exact roots_names hr hnone fun c hc => (List.mem_filter.mp hc).1

/-- The active contexts can be asked for by their names. -/
theorem activeContexts_names (hr : p.registry.Indexed)
    (h : p.activeContexts requested = .ok active) :
    p.activeContexts (active.map (·.name)) = .ok active := by
  rw [activeContexts_eq] at h
  obtain ⟨roots, hroots, hexpand⟩ := bind_eq_ok h
  have hregistered := mem_contexts_of_roots hr hroots
  have hactive : ∀ c, c ∈ active ↔ ∃ root ∈ roots, c ∈ p.line root := fun c =>
    mem_expand_iff hr hregistered hexpand
  by_cases hnone : active = []
  · -- nothing is active just if nothing is asked for, and no context is a default one
    have hempty : roots = [] := by
      rw [List.eq_nil_iff_forall_not_mem]
      intro root hroot
      have hmem := (hactive root).mpr ⟨root, hroot, p.mem_line_self root⟩
      simp [hnone] at hmem
    obtain rfl := eq_nil_of_roots (hempty ▸ hroots)
    rw [hnone, List.map_nil, activeContexts_eq, hroots, ← hnone]
    exact hexpand
  · have hmem : ∀ c ∈ active, c ∈ p.registry.contexts := by
      intro c hc
      obtain ⟨root, hroot, hc⟩ := (hactive c).mp hc
      exact ((expand_eq_ok_iff.mp hexpand).1 root hroot).mem_contexts (hregistered root hroot) hc
    rw [activeContexts_eq, roots_names hr hnone hmem]
    exact expand_expand hr hregistered hexpand

/-- A plan is the one under the active contexts. -/
theorem plan_eq_ok_iff {plan : Plan} : p.plan requested filter = .ok plan ↔
    ∃ active, p.activeContexts requested = .ok active ∧ p.planUnder filter active = plan := by
  rw [plan_eq]
  cases p.activeContexts requested with
  | error e => simp [Except.map]
  | ok active => simp [Except.map]

/-- A plan hangs on the contexts that are asked for. -/
theorem plan_congr (h : p.roots others = p.roots requested) (filter : Filter) :
    p.plan others filter = p.plan requested filter := by
  rw [plan_eq, plan_eq, activeContexts_eq, activeContexts_eq, h]

/-- **Requests can be rewritten**, whatever was registered, asked for and filtered; the plan, or
the error, is the same.

* In place of nothing the names of the default contexts can be asked for, in their order.
* Identifiers that are resolved can be replaced by the names of their contexts, wherever they
  stand; the others stay.
* If there is a plan, its active contexts can be asked for. -/
theorem requests_rewritten (contexts : List Context) (commands : List Command)
    (requested : List String) (filter : Filter) :
    let p := ofRegistered contexts commands
    p.plan (p.registry.defaults.map (·.name)) filter = p.plan [] filter ∧
    (∀ rewritten, List.Forall₂ (Rewrites p.registry) requested rewritten →
      p.plan rewritten filter = p.plan requested filter) ∧
    ∀ plan, p.plan requested filter = .ok plan →
      p.plan plan.activeContexts filter = .ok plan := by
  intro p
  have hr : p.registry.Indexed := Registry.indexed_ofContexts contexts
  refine ⟨plan_congr (roots_defaults hr) filter, fun rewritten h => ?_, fun plan h => ?_⟩
  · exact plan_congr (roots_of_rewrites hr h) filter
  · obtain ⟨active, hactive, rfl⟩ := plan_eq_ok_iff.mp h
    exact plan_eq_ok_iff.mpr ⟨active, activeContexts_names hr hactive, rfl⟩

/-- A context with another one's name as its alias. -/
def fast : Context := { name := "fast", aliases := ["strict"] }

/-- The other one, the other way round. -/
def strict : Context where
  name := "strict"
  aliases := ["s", "fast"]
  isDefault := true
  parent := some "base"

/-- Both, with the parent of the second. -/
def crossed : List Context := [fast, strict, { name := "base" }]

/-- Commands that two of them patch. -/
def patchedChecks : List Command := [
  { name := "black" },
  { name := "mypy", baseArgs := ["--fast"], membership := .ofList [("fast", true)],
    patches := .ofList [("strict", { addArgs := some ["--strict"] }),
      ("fast", { addArgs := some ["--cached"] })] }]

theorem resolve_crossed :
    (ofRegistered crossed patchedChecks).registry.resolve "fast" = .ok fast ∧
    (ofRegistered crossed patchedChecks).registry.resolve "strict" = .ok strict ∧
    (ofRegistered crossed patchedChecks).registry.resolve "s" = .ok strict := by
  decide +kernel

/-- The plan for both of them. -/
def crossedPlan : Plan where
  activeContexts := ["strict", "base", "fast"]
  entries := [
    { command := "black", args := [], selectedBy := ["strict"] },
    { command := "mypy", args := ["--fast", "--strict", "--cached"], selectedBy := ["fast"] }]

theorem requests_rewritten_crossed :
    (ofRegistered crossed patchedChecks).plan ["s", "fast"] {} = .ok crossedPlan ∧
    (ofRegistered crossed patchedChecks).plan ["strict", "fast"] {} = .ok crossedPlan ∧
    (ofRegistered crossed patchedChecks).plan ["strict", "base", "fast"] {} = .ok crossedPlan := by
  have hplan : (ofRegistered crossed patchedChecks).plan ["s", "fast"] {} = .ok crossedPlan := by
    decide +kernel
  obtain ⟨-, -, hresolve⟩ := resolve_crossed
  obtain ⟨-, hnames, hactive⟩ := requests_rewritten crossed patchedChecks ["s", "fast"] {}
  refine ⟨hplan, ?_, hactive crossedPlan hplan⟩
  exact (hnames ["strict", "fast"] (.cons (.named hresolve) (.cons (.stays _) .nil))).trans hplan

/-! ## The order of a request -/

/-- Two requests that ask for the same contexts. -/
structure AsksAlike (r : Registry) (requested others : List String) : Prop where
  /-- the first asks for something -/
  left_ne_nil : requested ≠ []
  /-- so does the second -/
  right_ne_nil : others ≠ []
  /-- every identifier of the first is resolved -/
  left_resolves : ∀ id ∈ requested, ∃ c, r.resolve id = .ok c
  /-- so is every one of the second -/
  right_resolves : ∀ id ∈ others, ∃ c, r.resolve id = .ok c
  /-- and to the same contexts -/
  same : ∀ c, (∃ id ∈ requested, r.resolve id = .ok c) ↔ ∃ id ∈ others, r.resolve id = .ok c

/-- Identifiers that are resolved ask for the contexts that they are resolved to. -/
theorem exists_roots (hne : requested ≠ [])
    (h : ∀ id ∈ requested, ∃ c, p.registry.resolve id = .ok c) :
    ∃ roots, p.roots requested = .ok roots ∧
      ∀ c, c ∈ roots ↔ ∃ id ∈ requested, p.registry.resolve id = .ok c := by
  obtain ⟨roots, hroots⟩ := exists_mapM_eq_ok h
  have hall := forall₂_of_mapM hroots
  refine ⟨roots, ?_, fun c => ⟨exists_of_mem_mapM hroots, ?_⟩⟩
  · rw [Planner.roots, if_neg (by simpa using hne)]
    exact hroots
  · rintro ⟨id, hid, hc⟩
    obtain ⟨d, hd, hresolve⟩ := exists_of_mem_forall₂ hall.flip hid
    obtain rfl : d = c := Except.ok.inj (hresolve.symm.trans hc)
    exact hd

/-- Whether contexts are expanded does not hang on their order, and neither does to what, apart
from the order. -/
theorem perm_of_expand (hr : p.registry.Indexed) (hroots : ∀ c ∈ roots, c ∈ p.registry.contexts)
    {roots' : List Context} (hsame : ∀ c, c ∈ roots ↔ c ∈ roots')
    (h : p.expand roots = .ok active) :
    ∃ active', p.expand roots' = .ok active' ∧ active.Perm active' := by
  obtain ⟨hlines, hfirst⟩ := expand_eq_ok_iff.mp h
  have hroots' : ∀ c ∈ roots', c ∈ p.registry.contexts := fun c hc => hroots c ((hsame c).mpr hc)
  have h' : p.expand roots' = .ok (distinctBy (·.name) (roots'.flatMap p.line)) :=
    expand_eq_ok_iff.mpr ⟨fun c hc => hlines c ((hsame c).mpr hc), rfl⟩
  have hnodup : ∀ l : List Context, (distinctBy (·.name) l).Nodup := fun l =>
    List.Nodup.of_map (·.name) (List.pairwise_map.mpr (pairwise_distinctBy (·.name) l))
  refine ⟨_, h', ?_⟩
  apply (List.perm_ext_iff_of_nodup (hfirst ▸ hnodup _) (hnodup _)).mpr
  intro c
  rw [mem_expand_iff hr hroots h, mem_expand_iff hr hroots' h']
  simp only [hsame]

/-- Alike requests make the same contexts active, in some order. -/
theorem AsksAlike.perm_activeContexts (hr : p.registry.Indexed)
    (h : AsksAlike p.registry requested others)
    (hactive : p.activeContexts requested = .ok active) :
    ∃ active', p.activeContexts others = .ok active' ∧ active.Perm active' := by
  obtain ⟨roots, hroots, hmem⟩ := exists_roots h.left_ne_nil h.left_resolves
  obtain ⟨roots', hroots', hmem'⟩ := exists_roots h.right_ne_nil h.right_resolves
  have hsame : ∀ c, c ∈ roots ↔ c ∈ roots' := fun c => by rw [hmem, hmem', h.same]
  rw [activeContexts_eq, hroots] at hactive
  rw [activeContexts_eq, hroots']
  exact perm_of_expand hr (mem_contexts_of_roots hr hroots) hsame hactive

theorem AsksAlike.symm {r : Registry} (h : AsksAlike r requested others) :
    AsksAlike r others requested :=
  ⟨h.right_ne_nil, h.left_ne_nil, h.right_resolves, h.left_resolves, fun c => (h.same c).symm⟩

/-- What selects a command does not hang on the order of the active contexts. -/
theorem perm_selecting (command : Command) (h : active.Perm active') :
    (selecting command active).Perm (selecting command active') := by
  have hselects : ∀ c, Selects command active c ↔ Selects command active' c := fun c => by
    rw [Selects, Selects, forall_congr' fun d => imp_congr_left h.mem_iff]
  rw [selecting_eq, selecting_eq]
  simp only [hselects]
  exact (h.filter _).map _

/-- A single patch applies in every order of the active contexts. -/
theorem effectiveArgs_of_perm {command : Command} (h : active.Perm active')
    (hsingle : (command.activePatches active).length ≤ 1) :
    command.effectiveArgs active = command.effectiveArgs active' := by
  have hpatches : (command.activePatches active).Perm (command.activePatches active') :=
    h.filterMap _
  have heq : command.activePatches active = command.activePatches active' := by
    match hlist : command.activePatches active, hsingle with
    | [], _ => exact (List.nil_perm.mp (hlist ▸ hpatches)).symm
    | [patch], _ => exact List.singleton_perm.mp (hlist ▸ hpatches)
  rw [Command.effectiveArgs, Command.effectiveArgs, heq]

/-- Plans under the same contexts in some order, entry by entry. -/
theorem forall₂_entries (hn : (p.catalog.commands.map (·.name)).Nodup) (h : active.Perm active')
    (filter : Filter) :
    List.Forall₂
      (fun e e' => e.command = e'.command ∧ e.selectedBy.Perm e'.selectedBy ∧
        ∀ command ∈ p.catalog.commands, command.name = e.command →
          (command.activePatches active).length ≤ 1 → e.args = e'.args)
      (p.planUnder filter active).entries (p.planUnder filter active').entries := by
  refine List.rel_filterMap (R := fun c d => c = d ∧ c ∈ p.catalog.commands) ?_
    (List.forall₂_same.mpr fun command hcommand => ⟨rfl, hcommand⟩)
  rintro command _ ⟨rfl, hcommand⟩
  have hperm := perm_selecting command h
  have hempty : (entry active command).selectedBy.isEmpty =
      (entry active' command).selectedBy.isEmpty := hperm.isEmpty_eq
  dsimp only
  rw [hempty]
  split
  · exact .none
  · refine .some ⟨rfl, hperm, fun other hother hname hsingle => ?_⟩
    obtain rfl := List.inj_on_of_nodup_map hn hother hcommand hname
    exact effectiveArgs_of_perm h hsingle

/-- **The order of a request decides arguments only**, whatever was registered and filtered.
Requests for the same contexts, in any order, however often and by whatever identifiers, have both
a plan or none. The plans are of the same commands in the same order, with the same active
contexts and the same ones that select a command, each in some order; a command that at most one
active context patches has the same arguments. -/
theorem order_decides_arguments (contexts : List Context) (commands : List Command)
    (requested others : List String) (filter : Filter) :
    let p := ofRegistered contexts commands
    AsksAlike p.registry requested others →
      ((∃ plan, p.plan requested filter = .ok plan) ↔ ∃ plan, p.plan others filter = .ok plan) ∧
      ∀ plan other, p.plan requested filter = .ok plan → p.plan others filter = .ok other →
        plan.activeContexts.Perm other.activeContexts ∧ plan.commandNames = other.commandNames ∧
        List.Forall₂
          (fun e e' => e.command = e'.command ∧ e.selectedBy.Perm e'.selectedBy ∧
            ∀ command ∈ p.catalog.commands, command.name = e.command →
              (plan.activeContexts.filterMap command.patches.get?).length ≤ 1 → e.args = e'.args)
          plan.entries other.entries := by
  intro p halike
  have hr : p.registry.Indexed := Registry.indexed_ofContexts contexts
  have hn : (p.catalog.commands.map (·.name)).Nodup := Catalog.nodup_ofCommands commands
  have hother : ∀ {asked asked'}, AsksAlike p.registry asked asked' →
      (∃ plan, p.plan asked filter = .ok plan) → ∃ plan, p.plan asked' filter = .ok plan := by
    rintro asked asked' halike ⟨plan, h⟩
    obtain ⟨active, hactive, -⟩ := plan_eq_ok_iff.mp h
    obtain ⟨active', hactive', -⟩ := halike.perm_activeContexts hr hactive
    exact ⟨_, plan_eq_ok_iff.mpr ⟨active', hactive', rfl⟩⟩
  refine ⟨⟨hother halike, hother halike.symm⟩, fun plan other h h' => ?_⟩
  obtain ⟨active, hactive, rfl⟩ := plan_eq_ok_iff.mp h
  obtain ⟨active', hactive', rfl⟩ := plan_eq_ok_iff.mp h'
  obtain ⟨same, hsame, hperm⟩ := halike.perm_activeContexts hr hactive
  obtain rfl : same = active' := Except.ok.inj (hsame.symm.trans hactive')
  have hentries := forall₂_entries hn hperm filter
  refine ⟨hperm.map _, ?_, hentries.imp fun e e' he => ⟨he.1, he.2.1, ?_⟩⟩
  · rw [Plan.commandNames, Plan.commandNames, ← List.forall₂_eq_eq_eq, List.forall₂_map_left_iff,
      List.forall₂_map_right_iff]
    exact hentries.imp fun e e' he => he.1
  · intro command hcommand hname hsingle
    apply he.2.2 command hcommand hname
    rwa [planUnder, List.filterMap_map] at hsingle

/-- The plan for both in the other order. -/
def crossedBack : Plan where
  activeContexts := ["fast", "strict", "base"]
  entries := [
    { command := "black", args := [], selectedBy := ["strict"] },
    { command := "mypy", args := ["--fast", "--cached", "--strict"], selectedBy := ["fast"] }]

theorem order_decides_arguments_crossed :
    AsksAlike (ofRegistered crossed patchedChecks).registry ["s", "fast"] ["fast", "strict", "s"] ∧
    (ofRegistered crossed patchedChecks).plan ["s", "fast"] {} = .ok crossedPlan ∧
    (ofRegistered crossed patchedChecks).plan ["fast", "strict", "s"] {} = .ok crossedBack ∧
    crossedPlan.activeContexts.Perm crossedBack.activeContexts ∧
    crossedPlan.commandNames = crossedBack.commandNames := by
  have halike : AsksAlike (ofRegistered crossed patchedChecks).registry ["s", "fast"]
      ["fast", "strict", "s"] := by
    obtain ⟨hfast, hstrict, hs⟩ := resolve_crossed
    constructor <;> simp [hfast, hstrict, hs, or_comm]
  have hplan : (ofRegistered crossed patchedChecks).plan ["s", "fast"] {} = .ok crossedPlan := by
    decide +kernel
  have hback : (ofRegistered crossed patchedChecks).plan ["fast", "strict", "s"] {} =
      .ok crossedBack := by
    decide +kernel
  obtain ⟨-, hplans⟩ :=
    order_decides_arguments crossed patchedChecks ["s", "fast"] ["fast", "strict", "s"] {} halike
  obtain ⟨hactive, hnames, -⟩ := hplans crossedPlan crossedBack hplan hback
  exact ⟨halike, hplan, hback, hactive, hnames⟩

end Checkup.Planner
