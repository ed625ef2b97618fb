import Checkup.Proofs.Catalogs
import Checkup.Proofs.Registration

/-!
# What a plan selects

A plan read off the contexts and commands that were registered, without the planner:

* `Planner.Asked` — the contexts that a request asks for.
* `Registry.IsLine` — a context followed by its ancestors, up to one without a parent.
* `Planner.Selects` — whether a context selects a command, among those that are active.
* `Planner.exists_lines` — the active contexts are the first occurrences along the lines of what
  is asked for.
* `Planner.plan_selects` — what a plan holds, and what fails it.
-/

namespace Checkup

/-! ## First occurrences -/

section Distinct

universe u v

variable {α : Type u} {κ : Type v} [DecidableEq κ] {key : α → κ}

/-- Elements can be left out first, if those with one key go together. -/
theorem distinctBy_filter {p : α → Bool} (h : ∀ x y, key x = key y → p x = p y) (xs : List α) :
    distinctBy key (xs.filter p) = (distinctBy key xs).filter p := by
  induction xs with
  | nil => rfl
  | cons x xs ih =>
    by_cases hx : p x = true
    · rw [List.filter_cons_of_pos hx, distinctBy, distinctBy, ih, List.filter_cons_of_pos hx,
        List.filter_filter, List.filter_filter]
      simp only [Bool.and_comm]
    · -- what goes with an element that is left out is left out, too
      rw [List.filter_cons_of_neg hx, ih, distinctBy, List.filter_cons_of_neg hx,
        List.filter_filter]
      refine List.filter_congr fun y _ => ?_
      by_cases hy : key y = key x
      · simp [h y x hy, hx]
      · simp [hy]

/-- With a key of their own, elements occur first where their keys do. -/
theorem distinctBy_eq_eraseDups [DecidableEq α] {xs : List α}
    (h : ∀ x ∈ xs, ∀ y ∈ xs, key x = key y → x = y) : distinctBy key xs = xs.eraseDups := by
  induction hn : xs.length using Nat.strongRecOn generalizing xs with
  | ind n ih =>
    subst hn
    cases xs with
    | nil => rfl
    | cons x xs =>
      have hkeys : xs.filter (fun y => key y ≠ key x) = xs.filter fun y => !y == x := by
        refine List.filter_congr fun y hy => ?_
        rw [Bool.eq_iff_iff]
        have hxy : key y = key x ↔ y = x :=
          ⟨h y (List.mem_cons_of_mem _ hy) x List.mem_cons_self, congrArg key⟩
        simp [hxy]
      rw [distinctBy, List.eraseDups_cons, ← distinctBy_filter (by simp +contextual), hkeys]
      refine congrArg _ (ih _ ?_ (fun y hy z hz => ?_) rfl)
      · exact Nat.lt_succ_of_le (List.length_filter_le _ _)
      · exact h y (List.mem_cons_of_mem _ (List.mem_filter.mp hy).1) z
          (List.mem_cons_of_mem _ (List.mem_filter.mp hz).1)

end Distinct

/-! ## Lines of ancestors -/

namespace Registry

variable {r : Registry}

/-- A context followed by its ancestors, nearest first, up to one without a parent. -/
def IsLine (r : Registry) (c : Context) (line : List Context) : Prop :=
  ∃ above, line = c :: above ∧ r.Trail c.parent above none

/-- A walk to the end meets the parent that it starts from, and the parent of all that it meets. -/
theorem Trail.exists_parent {parent : Option String} {met : List Context}
    (h : r.Trail parent met none) :
    (∀ name, parent = some name → ∃ d ∈ met, d.name = name) ∧
      ∀ c ∈ met, ∀ name, c.parent = some name → ∃ d ∈ met, d.name = name := by
  induction met generalizing parent with
  | nil =>
    obtain rfl := h.eq_of_nil
    exact ⟨nofun, nofun⟩
  | cons c rest ih =>
    obtain ⟨rfl, -, htail⟩ := h.of_cons
    obtain ⟨hfirst, hrest⟩ := ih htail
    refine ⟨fun name hname => ⟨c, List.mem_cons_self, Option.some.inj hname⟩,
      fun d hd name hname => ?_⟩
    have hparent : ∃ d ∈ rest, d.name = name := by
      rcases List.mem_cons.mp hd with rfl | hd
      · exact hfirst name hname
      · exact hrest d hd name hname
    obtain ⟨e, he, hename⟩ := hparent
    exact ⟨e, List.mem_cons_of_mem _ he, hename⟩

/-- The contexts of a line are registered, if its first one is. -/
theorem IsLine.mem_contexts {c : Context} {line : List Context} (h : r.IsLine c line)
    (hc : c ∈ r.contexts) : ∀ d ∈ line, d ∈ r.contexts := by
  obtain ⟨above, rfl, htrail⟩ := h
  exact List.forall_mem_cons.mpr ⟨hc, htrail.mem_contexts⟩

/-- A line has the parents of its contexts. -/
theorem IsLine.exists_parent {c : Context} {line : List Context} (h : r.IsLine c line) :
    ∀ d ∈ line, ∀ name, d.parent = some name → ∃ e ∈ line, e.name = name := by
  obtain ⟨above, rfl, htrail⟩ := h
  obtain ⟨hfirst, hrest⟩ := htrail.exists_parent
  intro d hd name hname
  have hparent : ∃ e ∈ above, e.name = name := by
    rcases List.mem_cons.mp hd with rfl | hd
    · exact hfirst name hname
    · exact hrest d hd name hname
  obtain ⟨e, he, hename⟩ := hparent
  exact ⟨e, List.mem_cons_of_mem _ he, hename⟩

/-- Ancestors that are found make a line. -/
theorem isLine_of_ancestors {c : Context} {above : List Context}
    (h : r.ancestors c = .ok above) : r.IsLine c (c :: above) := by
  obtain ⟨met, next, htrail, -, -, hout⟩ := r.ancestors_spec c
  rw [h] at hout
  cases hout
  exact ⟨above, rfl, htrail⟩

end Registry

/-! ## Commands in a catalog -/

namespace Catalog

/-- Names stay distinct, whatever is registered. -/
theorem nodup_ofCommands (commands : List Command) :
    ((ofCommands commands).commands.map (·.name)).Nodup := by
  induction commands using List.reverseRecOn with
  | nil => exact List.nodup_nil
  | append_singleton commands c ih =>
    rw [ofCommands, List.foldl_append]
    change ((place c (ofCommands commands).commands).map (·.name)).Nodup
    rw [map_name_place]
    split
    · exact ih
    · rename_i hnew
      simpa [List.nodup_append, ih] using hnew

end Catalog

/-! ## Requests -/

namespace Planner

variable {p : Planner} {requested : List String} {active : List Context} {filter : Filter}

/-- The contexts that a request asks for, in its order; without a request, the default ones. -/
inductive Asked (r : Registry) : List String → List Context → Prop
  /-- nothing is asked for -/
  | defaults : Asked r [] (r.contexts.filter (·.isDefault))
  /-- every identifier stands for what it means -/
  | identifiers {requested : List String} {roots : List Context} : requested ≠ [] →
      List.Forall₂ (fun id c => Registry.Means r.contexts id (.ok c)) requested roots →
      Asked r requested roots

/-- Whether no registered context answers to an identifier. -/
def IsUnknown (r : Registry) (identifier : String) : Prop :=
  ∀ c ∈ r.contexts, ¬ c.answersTo identifier = true

instance (r : Registry) (identifier : String) : Decidable (IsUnknown r identifier) :=
  inferInstanceAs (Decidable (∀ c ∈ r.contexts, _))

theorem mem_of_means {contexts : List Context} {identifier : String} {c : Context}
    (h : Registry.Means contexts identifier (.ok c)) : c ∈ contexts := by
  match h with
  | .name hmem _ => exact hmem
  | .alias _ hsplit _ _ =>
    rw [hsplit]
    exact List.mem_append_right _ List.mem_cons_self

theorem Asked.mem_contexts {r : Registry} {roots : List Context} (h : Asked r requested roots) :
    ∀ c ∈ roots, c ∈ r.contexts := by
  cases h with
  | defaults => exact fun c hc => (List.mem_filter.mp hc).1
  | identifiers _ hall =>
    intro c hc
    obtain ⟨id, -, hmeans⟩ := exists_of_mem_forall₂ hall hc
    exact mem_of_means hmeans

theorem asked_of_roots (hr : p.registry.Indexed) {roots : List Context}
    (h : p.roots requested = .ok roots) : Asked p.registry requested roots := by
  rw [Planner.roots] at h
  cases requested with
  | nil =>
    cases h
    exact .defaults
  | cons id rest =>
    rw [if_neg (by simp)] at h
    refine .identifiers (List.cons_ne_nil _ _) ((forall₂_of_mapM h).imp fun id c hid => ?_)
    exact hid ▸ hr.means_resolve id

/-- **The active contexts** are the first occurrences along the lines of what is asked for. -/
theorem exists_lines (hr : p.registry.Indexed) (h : p.activeContexts requested = .ok active) :
    ∃ roots lines, Asked p.registry requested roots ∧
      List.Forall₂ p.registry.IsLine roots lines ∧ active = lines.flatten.eraseDups ∧
      (active.map (·.name)).Nodup ∧
      ∀ c ∈ active, ∀ name, c.parent = some name → ∃ d ∈ active, d.name = name := by
  obtain ⟨roots, hroots, h⟩ := bind_eq_ok h
  obtain ⟨lines, hlines, h⟩ := bind_eq_ok h
  have hasked := asked_of_roots hr hroots
  have hall : List.Forall₂ p.registry.IsLine roots lines := by
    refine (forall₂_of_mapM hlines).imp fun c line hline => ?_
    rw [lineage] at hline
    cases habove : p.registry.ancestors c with
    | error e =>
      rw [habove] at hline
      cases hline
    | ok above =>
      rw [habove] at hline
      cases hline
      exact Registry.isLine_of_ancestors habove
  have hline : ∀ c ∈ lines.flatten, ∃ root ∈ roots, ∃ line ∈ lines, c ∈ line ∧
      p.registry.IsLine root line := by
    intro c hc
    obtain ⟨line, hmem, hc⟩ := List.mem_flatten.mp hc
    obtain ⟨root, hroot, hline⟩ := exists_of_mem_forall₂ hall hmem
    exact ⟨root, hroot, line, hmem, hc, hline⟩
  have hregistered : ∀ c ∈ lines.flatten, c ∈ p.registry.contexts := by
    intro c hc
    obtain ⟨root, hroot, line, -, hc, hline⟩ := hline c hc
    exact hline.mem_contexts (hasked.mem_contexts root hroot) c hc
  obtain rfl : distinctBy (·.name) lines.flatten = active := Except.ok.inj h
  -- a registered context has its name for itself
  have hfirst : distinctBy (·.name) lines.flatten = lines.flatten.eraseDups :=
    distinctBy_eq_eraseDups fun c hc d hd hname =>
      List.inj_on_of_nodup_map hr.nodup (hregistered c hc) (hregistered d hd) hname
  refine ⟨roots, lines, hasked, hall, hfirst, ?_, ?_⟩
  · exact List.pairwise_map.mpr (pairwise_distinctBy _ _)
  · intro c hc name hname
    rw [hfirst, List.mem_eraseDups] at hc
    obtain ⟨root, -, line, hmem, hc, hline⟩ := hline c hc
    obtain ⟨d, hd, hdname⟩ := hline.exists_parent c hc name hname
    refine ⟨d, ?_, hdname⟩
    rw [hfirst, List.mem_eraseDups]
    exact List.mem_flatten.mpr ⟨line, hmem, hd⟩

/-- The first unknown identifier fails a plan. -/
theorem exists_firstUnknown (hr : p.registry.Indexed) {identifier : String}
    (hid : identifier ∈ requested) (hunknown : IsUnknown p.registry identifier)
    (filter : Filter) :
    ∃ before first after, requested = before ++ first :: after ∧
      (∀ known ∈ before, ¬ IsUnknown p.registry known) ∧ IsUnknown p.registry first ∧
      p.plan requested filter = .error (.unknownContext first) := by
  obtain ⟨first, hfirst⟩ : ∃ first, requested.find? (fun id => IsUnknown p.registry id) =
      some first := by
    rw [← Option.isSome_iff_exists, List.find?_isSome]
    exact ⟨identifier, hid, decide_eq_true hunknown⟩
  obtain ⟨hdecided, before, after, rfl, hrest⟩ := List.find?_eq_some_iff_append.mp hfirst
  have hfirst : IsUnknown p.registry first := of_decide_eq_true hdecided
  have hbefore : ∀ known ∈ before, ¬ IsUnknown p.registry known := by simpa using hrest
  refine ⟨before, first, after, rfl, hbefore, hfirst, ?_⟩
  have hroots : p.roots (before ++ first :: after) = .error (.unknownContext first) := by
    rw [Planner.roots, if_neg (by simp)]
    refine mapM_eq_error (fun known hknown => ?_) ?_
    · cases hmeant : Registry.meant? p.registry.contexts known with
      | none => exact absurd (Registry.meant?_eq_none_iff.mp hmeant) (hbefore known hknown)
      | some c => exact ⟨c, by rw [hr.resolve_eq, hmeant]⟩
    · rw [hr.resolve_eq, Registry.meant?_eq_none_iff.mpr hfirst]
  rw [plan, activeContexts, hroots]
  rfl

/-! ## Selections -/

/-- Whether a context selects a command among active ones: the command says that it belongs to
it; or it is a default one, and the command speaks of no active context at all. -/
def Selects (command : Command) (active : List Context) (c : Context) : Prop :=
  command.membership.get? c.name = some true ∨
    c.isDefault = true ∧ ∀ d ∈ active, command.membership.get? d.name = none

instance (command : Command) (active : List Context) : DecidablePred (Selects command active) :=
  fun _ => inferInstanceAs (Decidable (_ ∨ _ ∧ _))

/-- The contexts that select a command are named in their order. -/
theorem selecting_eq (command : Command) (active : List Context) :
    selecting command active = (active.filter (Selects command active)).map (·.name) := by
  have hsays : ∀ said : Option Bool, said.getD false = true ↔ said = some true := by
    rintro (- | said) <;> simp
  rw [selecting]
  refine congrArg (List.map _) (List.filter_congr fun context _ => ?_)
  rw [Bool.eq_iff_iff, decide_eq_true_iff, Selects]
  simp [Command.isSelectedBy, hsays]

/-- A command is selected if it belongs to an active context, or speaks of none and one of them
is a default one. -/
theorem selecting_ne_nil_iff {command : Command} :
    selecting command active ≠ [] ↔
      (∃ c ∈ active, command.membership.get? c.name = some true) ∨
        (∀ c ∈ active, command.membership.get? c.name = none) ∧
          ∃ c ∈ active, c.isDefault = true := by
  have hsome : selecting command active ≠ [] ↔ ∃ c ∈ active, Selects command active c := by
    simp [selecting_eq]
  rw [hsome]
  constructor
  · rintro ⟨c, hc, hbelongs | ⟨hdefault, hsilent⟩⟩
    · exact .inl ⟨c, hc, hbelongs⟩
    · exact .inr ⟨hsilent, c, hc, hdefault⟩
  · rintro (⟨c, hc, hbelongs⟩ | ⟨hsilent, c, hc, hdefault⟩)
    · exact ⟨c, hc, .inl hbelongs⟩
    · exact ⟨c, hc, .inr ⟨hdefault, hsilent⟩⟩

/-- Entries stand in the order of the catalog. -/
theorem entries_sublist (p : Planner) (filter : Filter) (active : List Context) :
    ((p.planUnder filter active).entries.map (·.command)).Sublist
      (p.catalog.commands.map (·.name)) := by
  rw [planUnder]
  induction p.catalog.commands with
  | nil => exact List.Sublist.slnil
  | cons command rest ih =>
    rw [List.filterMap_cons]
    dsimp only at ih ⊢
    split
    · rename_i hnone
      exact ih.cons _
    · rename_i e hsome
      obtain rfl : entry active command = e := by
        split at hsome
        · cases hsome
        · exact Option.some.inj hsome
      exact ih.cons_cons _

/-- The planner that registrations lead to. -/
def ofRegistered (contexts : List Context) (commands : List Command) : Planner :=
  ⟨Registry.ofContexts contexts, Catalog.ofCommands commands⟩

/-- **What a plan selects**, whatever was registered, asked for and filtered.

* Active are the first occurrences along the lines of what is asked for; so no context is twice
  among them, and every one is with its parent.
* The entries stand in the order of the catalog, at most one for a command. There is one just if
  the command may run and is selected: it belongs to an active context; or it speaks of none of
  them, and one of them is a default one. The entry names the contexts that select the command,
  in their order.
* An unknown identifier fails the plan, and the first one is named. -/
theorem plan_selects (contexts : List Context) (commands : List Command)
    (requested : List String) (filter : Filter) :
    let p := ofRegistered contexts commands
    (∀ plan, p.plan requested filter = .ok plan →
      ∃ roots lines active, Asked p.registry requested roots ∧
        List.Forall₂ p.registry.IsLine roots lines ∧ active = lines.flatten.eraseDups ∧
        plan.activeContexts = active.map (·.name) ∧ plan.activeContexts.Nodup ∧
        (∀ c ∈ active, ∀ name, c.parent = some name → name ∈ plan.activeContexts) ∧
        (plan.entries.map (·.command)).Nodup ∧
        (plan.entries.map (·.command)).Sublist (p.catalog.commands.map (·.name)) ∧
        ∀ command ∈ p.catalog.commands,
          ((∃ e ∈ plan.entries, e.command = command.name) ↔
            (command.name ∉ filter.deny ∧ (filter.allow = [] ∨ command.name ∈ filter.allow)) ∧
              ((∃ c ∈ active, command.membership.get? c.name = some true) ∨
                (∀ c ∈ active, command.membership.get? c.name = none) ∧
                  ∃ c ∈ active, c.isDefault = true)) ∧
          ∀ e ∈ plan.entries, e.command = command.name → e.selectedBy ≠ [] ∧
            e.selectedBy = (active.filter (Selects command active)).map (·.name)) ∧
    ∀ id ∈ requested, IsUnknown p.registry id →
      ∃ before first after, requested = before ++ first :: after ∧
        (∀ known ∈ before, ¬ IsUnknown p.registry known) ∧ IsUnknown p.registry first ∧
        p.plan requested filter = .error (.unknownContext first) := by
  intro p
  have hr : p.registry.Indexed := Registry.indexed_ofContexts contexts
  have hn : (p.catalog.commands.map (·.name)).Nodup := Catalog.nodup_ofCommands commands
  refine ⟨fun plan hplan => ?_, fun id hid hunknown => exists_firstUnknown hr hid hunknown filter⟩
  rw [plan_eq, map_eq_bind] at hplan
  obtain ⟨active, hactive, hplan⟩ := bind_eq_ok hplan
  obtain rfl : p.planUnder filter active = plan := Except.ok.inj hplan
  obtain ⟨roots, lines, hasked, hlines, hfirst, hnodup, hparents⟩ := exists_lines hr hactive
  have hsublist := p.entries_sublist filter active
  refine ⟨roots, lines, active, hasked, hlines, hfirst, rfl, hnodup, ?_, hn.sublist hsublist,
    hsublist, fun command hcommand => ?_⟩
  · intro c hc name hname
    obtain ⟨d, hd, rfl⟩ := hparents c hc name hname
    exact List.mem_map_of_mem hd
  have hget := (Catalog.mem_commands_iff hn).mp hcommand
  -- the entry of the command is the only one under its name
  have hentry : ∀ e, e ∈ (p.planUnder filter active).entries ∧ e.command = command.name ↔
      e = entry active command ∧ selecting command active ≠ [] ∧
        filter.permits command.name = true := by
    intro e
    rw [mem_entries_iff hn]
    constructor
    · rintro ⟨⟨other, hother, rfl, hselected, hpermits⟩, hname⟩
      rw [hname, hget] at hother
      obtain rfl := Option.some.inj hother
      exact ⟨rfl, hselected, hpermits⟩
    · rintro ⟨rfl, hselected, hpermits⟩
      exact ⟨⟨command, hget, rfl, hselected, hpermits⟩, rfl⟩
  refine ⟨?_, fun e he hname => ?_⟩
  · simp only [hentry, exists_eq_left, selecting_ne_nil_iff]
    rw [and_comm]
    refine and_congr ?_ .rfl
    simp [Filter.permits]
  · obtain ⟨rfl, hselected, -⟩ := (hentry e).mp ⟨he, hname⟩
    exact ⟨hselected, selecting_eq command active⟩

/-- Two contexts below a default one. -/
def siblings : List Context := [
  { name := "standard", isDefault := true },
  { name := "strict", aliases := ["s"], parent := some "standard" },
  { name := "test", parent := some "standard" }]

/-- Commands that speak of no context, of one that they belong to, and of one that they do not. -/
def checks : List Command := [
  { name := "black" },
  { name := "mypy", membership := .ofList [("strict", true)] },
  { name := "bandit", membership := .ofList [("test", false)] }]

/-- The plan for both siblings, by an alias of the first. -/
def siblingsPlan : Plan where
  activeContexts := ["strict", "standard", "test"]
  entries := [
    { command := "black", args := [], selectedBy := ["standard"] },
    { command := "mypy", args := [], selectedBy := ["strict"] }]

/-- The plan for the first one alone. -/
def strictPlan : Plan where
  activeContexts := ["strict", "standard"]
  entries := [
    { command := "black", args := [], selectedBy := ["standard"] },
    { command := "mypy", args := [], selectedBy := ["strict"] },
    { command := "bandit", args := [], selectedBy := ["standard"] }]

theorem plan_selects_siblings :
    (ofRegistered siblings checks).plan ["s", "test"] {} = .ok siblingsPlan ∧
    siblingsPlan.activeContexts.Nodup ∧
    (siblingsPlan.entries.map (·.command)).Sublist ["black", "mypy", "bandit"] ∧
    (∀ e ∈ siblingsPlan.entries, e.command = "black" → e.selectedBy ≠ []) ∧
    "ghost" ∈ ["s", "ghost"] ∧ IsUnknown (ofRegistered siblings checks).registry "ghost" ∧
    ∃ first, (ofRegistered siblings checks).plan ["s", "ghost"] {} =
      .error (.unknownContext first) := by
  have hplan : (ofRegistered siblings checks).plan ["s", "test"] {} = .ok siblingsPlan := by
    decide +kernel
  have hblack : ({ name := "black" } : Command) ∈ (ofRegistered siblings checks).catalog.commands :=
    by decide +kernel
  have hunknown : IsUnknown (ofRegistered siblings checks).registry "ghost" := by
    decide +kernel
  obtain ⟨roots, lines, active, -, -, -, -, hnodup, -, -, hsublist, hcommands⟩ :=
    (plan_selects siblings checks ["s", "test"] {}).1 siblingsPlan hplan
  obtain ⟨before, first, after, -, -, -, hfails⟩ :=
    (plan_selects siblings checks ["s", "ghost"] {}).2 "ghost" (by decide) hunknown
  refine ⟨hplan, hnodup, hsublist, fun e he hname => ?_, by decide, hunknown, first, hfails⟩
  exact ((hcommands _ hblack).2 e he hname).1

end Planner

end Checkup
