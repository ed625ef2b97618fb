import Checkup.Proofs.Requests

/-!
# Asking for more

A request that asks for more contexts keeps what was active before, in its place, and adds to it.
Its plan may lack a command all the same:

* `Planner.expand_append`, `Planner.activeContexts_append` — what is active for the first part of
  a request is where the active contexts of all of it start.
* `Planner.OptsOut` — a command that spoke of none of the contexts so far and declines new ones.
* `Planner.wider_plan_drops_by_opting_out` — no other command gets lost.
-/

namespace Checkup.Planner

variable {p : Planner} {requested more : List String} {roots others active wider : List Context}

/-! ## Active contexts -/

/-- The first part of a request asks for the first of its contexts. -/
theorem roots_append (hne : requested ≠ []) (h : p.roots (requested ++ more) = .ok roots) :
    ∃ first rest, p.roots requested = .ok first ∧ roots = first ++ rest := by
  rw [Planner.roots, if_neg (by simp [hne])] at h
  obtain ⟨first, rest, hfirst, -, hroots⟩ := mapM_append_eq_ok h
  refine ⟨first, rest, ?_, hroots⟩
  rw [Planner.roots, if_neg (by simpa using hne)]
  exact hfirst

/-- What the first of some contexts are expanded to is where all of them start. -/
theorem expand_append (h : p.expand (roots ++ others) = .ok wider) :
    ∃ active, p.expand roots = .ok active ∧ active <+: wider := by
  obtain ⟨hlines, hwider⟩ := expand_eq_ok_iff.mp h
  refine ⟨distinctBy (·.name) (roots.flatMap p.line), expand_eq_ok_iff.mpr ⟨?_, rfl⟩, ?_⟩
  · exact fun c hc => hlines c (List.mem_append_left _ hc)
  · rw [← hwider, List.flatMap_append, distinctBy_append]
    exact List.prefix_append ..

/-- **More contexts are active behind those that were**, if more of them are asked for. -/
theorem activeContexts_append (hne : requested ≠ [])
    (h : p.activeContexts (requested ++ more) = .ok wider) :
    ∃ active, p.activeContexts requested = .ok active ∧ active <+: wider := by
  rw [activeContexts_eq] at h
  obtain ⟨roots, hroots, h⟩ := bind_eq_ok h
  obtain ⟨first, rest, hfirst, rfl⟩ := roots_append hne hroots
  obtain ⟨active, hactive, hstart⟩ := expand_append h
  refine ⟨active, ?_, hstart⟩
  rw [activeContexts_eq, hfirst]
  exact hactive

/-! ## Commands that get lost -/

/-- A command that is lost when more contexts are active: it opts out of all the new ones that it
speaks of, and spoke of none before. -/
structure OptsOut (command : Command) (before after : List String) : Prop where
  /-- it speaks of no context that was active before -/
  silent : ∀ name ∈ before, command.membership.get? name = none
  /-- it speaks of one that is new -/
  speaks : ∃ name ∈ after, name ∉ before ∧ command.membership.get? name ≠ none
  /-- and says of none of them that it belongs to it -/
  declines : ∀ name ∈ after, name ∉ before → ∀ said, command.membership.get? name = some said →
    said = false

/-- A selected command is selected no more just if it opts out. -/
theorem selecting_eq_nil_iff_optsOut {command : Command} (hstart : active <+: wider)
    (hselected : selecting command active ≠ []) :
    selecting command wider = [] ↔
      OptsOut command (active.map (·.name)) (wider.map (·.name)) := by
  have hlost : selecting command wider = [] ↔
      ¬ ((∃ c ∈ wider, command.membership.get? c.name = some true) ∨
        (∀ c ∈ wider, command.membership.get? c.name = none) ∧
          ∃ c ∈ wider, c.isDefault = true) := by
    rw [← selecting_ne_nil_iff, ne_eq, not_not]
  rw [hlost]
  rcases selecting_ne_nil_iff.mp hselected with ⟨c, hc, hbelongs⟩ | ⟨hsilent, c, hc, hdefault⟩
  · -- what it belongs to stays active
    refine iff_of_false (fun hnot => hnot (.inl ⟨c, hstart.mem hc, hbelongs⟩)) fun h => ?_
    rw [h.silent c.name (List.mem_map_of_mem hc)] at hbelongs
    cases hbelongs
  · have hbefore : ∀ name ∈ active.map (·.name), command.membership.get? name = none :=
      List.forall_mem_map.mpr hsilent
    constructor
    · intro hnot
      obtain ⟨hbelongs, hspeaks⟩ := not_or.mp hnot
      have hspoken : ∃ d ∈ wider, command.membership.get? d.name ≠ none := by
        by_contra hnone
        push Not at hnone
        exact hspeaks ⟨hnone, c, hstart.mem hc, hdefault⟩
      obtain ⟨d, hd, hsays⟩ := hspoken
      refine ⟨hbefore, ⟨d.name, List.mem_map_of_mem hd, fun h => hsays (hbefore _ h), hsays⟩, ?_⟩
      intro name hname _ said hsaid
      obtain ⟨d, hd, rfl⟩ := List.mem_map.mp hname
      cases said with
      | false => rfl
      | true => exact absurd ⟨d, hd, hsaid⟩ hbelongs
    · rintro h (⟨d, hd, hbelongs⟩ | ⟨hnone, -⟩)
      · have hnew : d.name ∉ active.map (·.name) := fun hmem => by
          rw [hbefore _ hmem] at hbelongs
          cases hbelongs
        cases h.declines d.name (List.mem_map_of_mem hd) hnew true hbelongs
      · obtain ⟨name, hname, -, hsays⟩ := h.speaks
        obtain ⟨d, hd, rfl⟩ := List.mem_map.mp hname
        exact hsays (hnone d hd)

/-- **Asking for more drops a command only if it opts out**, whatever was registered and filtered.
If a request that is not empty has a plan with more contexts after it, it has one by itself. What
is active for it starts what is active for all of them, and a command of its plan is missing in
the wider one just if the command opts out of the new contexts. -/
theorem wider_plan_drops_by_opting_out (contexts : List Context) (commands : List Command)
    (requested more : List String) (filter : Filter) :
    let p := ofRegistered contexts commands
    requested ≠ [] → ∀ wider, p.plan (requested ++ more) filter = .ok wider →
      ∃ plan, p.plan requested filter = .ok plan ∧
        plan.activeContexts <+: wider.activeContexts ∧
        ∀ name ∈ plan.commandNames, ∃ command, p.catalog.get? name = some command ∧
          (name ∉ wider.commandNames ↔
            OptsOut command plan.activeContexts wider.activeContexts) := by
  intro p hne wider hwider
  have hn : (p.catalog.commands.map (·.name)).Nodup := Catalog.nodup_ofCommands commands
  obtain ⟨after, hafter, rfl⟩ := plan_eq_ok_iff.mp hwider
  obtain ⟨before, hbefore, hstart⟩ := activeContexts_append hne hafter
  refine ⟨p.planUnder filter before, plan_eq_ok_iff.mpr ⟨before, hbefore, rfl⟩, hstart.map _,
    fun name hname => ?_⟩
  obtain ⟨command, hget, hselected, hpermits⟩ := (mem_commandNames_iff hn).mp hname
  refine ⟨command, hget, ?_⟩
  rw [mem_commandNames_iff hn]
  -- the command is permitted as before, so it is missing just if nothing selects it
  have hmissing : (¬ ∃ other, p.catalog.get? name = some other ∧ selecting other after ≠ [] ∧
      filter.permits name = true) ↔ selecting command after = [] := by
    simp [hget, hpermits]
  rw [hmissing]
  exact selecting_eq_nil_iff_optsOut hstart hselected

theorem wider_plan_drops_by_opting_out_siblings :
    ["s"] ≠ [] ∧
    (ofRegistered siblings checks).plan (["s"] ++ ["test"]) {} = .ok siblingsPlan ∧
    (ofRegistered siblings checks).plan ["s"] {} = .ok strictPlan ∧
    strictPlan.activeContexts <+: siblingsPlan.activeContexts ∧
    "bandit" ∈ strictPlan.commandNames ∧ "bandit" ∉ siblingsPlan.commandNames ∧
    ∃ command, (ofRegistered siblings checks).catalog.get? "bandit" = some command ∧
      OptsOut command strictPlan.activeContexts siblingsPlan.activeContexts := by
  have hwider : (ofRegistered siblings checks).plan (["s"] ++ ["test"]) {} = .ok siblingsPlan := by
    decide +kernel
  have hplan : (ofRegistered siblings checks).plan ["s"] {} = .ok strictPlan := by
    decide +kernel
  obtain ⟨plan, hsame, hstart, hcommands⟩ :=
    wider_plan_drops_by_opting_out siblings checks ["s"] ["test"] {} (by decide) _ hwider
  obtain rfl : strictPlan = plan := Except.ok.inj (hplan.symm.trans hsame)
  have hmem : "bandit" ∈ strictPlan.commandNames := by decide
  have hmissing : "bandit" ∉ siblingsPlan.commandNames := by decide
  obtain ⟨command, hget, hiff⟩ := hcommands "bandit" hmem
  exact ⟨by decide, hwider, hplan, hstart, hmem, hmissing, command, hget, hiff.mp hmissing⟩

end Checkup.Planner
