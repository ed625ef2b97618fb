import Checkup.Proofs.Parents
import Mathlib.Logic.Relation

/-!
# Problems with parents and failing walks

Validation and the registry judge the same graph of parents, also where a configuration is not
valid:

* `Config.Above` — reachability in that graph.
* `ancestors_eq_cyclic_iff`, `exists_parentCycle_iff` — the ancestors of a context fail with
  its own name just if it is above itself, and just then validation finds a chain.
* `mem_problems_iff_mem_about` — which part of the problems one is in, by its subject
  (`mem_problems_iff` for contexts).
* `problems_agree_with_ancestors` — the two judgements side by side.
-/

namespace Checkup.Config

open Registry (Trail Outcome)

variable {c : Config}

/-- Following parents from one name comes to another. -/
def Above (c : Config) : String → String → Prop :=
  Relation.TransGen fun name parent => c.parentOf name = some parent

/-- A walk up the parents from a name to its first return there, which repeats no other name. -/
def IsReturn (c : Config) (name : String) (chain : List String) : Prop :=
  ∃ between, chain = name :: between ++ [name] ∧ name ∉ between ∧ between.Nodup ∧
    chain.IsChain fun name parent => c.parentOf name = some parent

/-! ## Reachability -/

theorem mem_keys_of_parentOf {name parent : String} (h : c.parentOf name = some parent) :
    name ∈ c.contexts.keys := by
  obtain ⟨context, hget, -⟩ := Option.bind_eq_some_iff.mp h
  by_contra hne
  rw [OrderedMap.get?_eq_none_iff.mpr hne] at hget
  cases hget

theorem exists_of_mem_keys {name : String} (h : name ∈ c.contexts.keys) :
    ∃ x ∈ c.registry.contexts, x.name = name := by
  rwa [← contextList_map_name, ← contexts_registry, List.mem_map] at h

/-- No registered context has a name just if it is no key. -/
theorem forall_name_ne_iff {name : String} :
    (∀ x ∈ c.registry.contexts, x.name ≠ name) ↔ name ∉ c.contexts.keys := by
  rw [← contextList_map_name, ← contexts_registry]
  simp

theorem Above.mem_keys {a b : String} (h : c.Above a b) : a ∈ c.contexts.keys := by
  obtain ⟨parent, hparent, -⟩ := Relation.TransGen.head'_iff.mp h
  exact mem_keys_of_parentOf hparent

/-- A chain of parents leads above its first name. -/
theorem above_of_isChain {name last : String} {between : List String}
    (h : (name :: between ++ [last]).IsChain fun name parent => c.parentOf name = some parent) :
    c.Above name last := by
  induction between generalizing name with
  | nil =>
    rw [List.cons_append, List.nil_append, List.isChain_cons_cons] at h
    exact .single h.1
  | cons next rest ih =>
    rw [List.cons_append, List.cons_append, List.isChain_cons_cons] at h
    exact .head h.1 (ih h.2)

/-- What a walk comes to is above its start. -/
theorem above_of_trail {met : List Context} {name next : String}
    (h : c.registry.Trail (c.parentOf name) met (some next)) : c.Above name next := by
  induction met generalizing name with
  | nil => exact .single h.eq_of_nil
  | cons x rest ih =>
    obtain ⟨hparent, hget, htail⟩ := h.of_cons
    exact .head hparent (ih (parentOf_of_get? hget ▸ htail))

/-- A walk that stands before a name again it started from never leaves the names it met. -/
theorem mem_of_above_of_trail {met : List Context} {name : String}
    (h : c.registry.Trail (c.parentOf name) met (some name)) {a b : String}
    (ha : a ∈ name :: met.map (·.name)) (hab : c.Above a b) : b ∈ name :: met.map (·.name) := by
  -- the next name of a walk is the first it meets, or the one before which it stands then
  have hnext : ∀ {parent : String} {rest : List Context},
      c.registry.Trail (some parent) rest (some name) → parent ∈ name :: rest.map (·.name) := by
    intro parent rest htrail
    cases rest with
    | nil =>
      obtain rfl := Option.some.inj htrail.eq_of_nil
      exact List.mem_cons_self
    | cons x rest =>
      obtain ⟨hparent, -, -⟩ := htrail.of_cons
      obtain rfl := Option.some.inj hparent
      simp
  have hstep : ∀ a ∈ name :: met.map (·.name), ∀ b, c.parentOf a = some b →
      b ∈ name :: met.map (·.name) := by
    intro a ha b hab
    rcases List.mem_cons.mp ha with rfl | ha
    · rw [hab] at h
      exact hnext h
    · obtain ⟨x, hx, rfl⟩ := List.mem_map.mp ha
      obtain ⟨before, after, rfl⟩ := List.append_of_mem hx
      obtain ⟨hget, htrail⟩ := h.cut
      rw [← parentOf_of_get? hget, hab] at htrail
      rcases List.mem_cons.mp (hnext htrail) with rfl | hb
      · exact List.mem_cons_self
      · simp only [List.map_append, List.map_cons, List.mem_cons, List.mem_append]
        exact .inr (.inr (.inr hb))
  induction hab with
  | single hab => exact hstep a ha _ hab
  | tail _ hbc ih => exact hstep _ ih _ hbc

/-- What is above the start of a walk is met by it, or is or is above what it stands before. -/
theorem Above.of_trail {a b : String} (h : c.Above a b) {met : List Context}
    {next : Option String} (htrail : c.registry.Trail (c.parentOf a) met next) :
    b ∈ met.map (·.name) ∨ ∃ z, next = some z ∧ (z = b ∨ c.Above z b) := by
  induction met generalizing a with
  | nil =>
    obtain ⟨parent, hparent, hrest⟩ := Relation.TransGen.head'_iff.mp h
    refine .inr ⟨parent, htrail.eq_of_nil ▸ hparent, ?_⟩
    rcases Relation.reflTransGen_iff_eq_or_transGen.mp hrest with rfl | hrest
    · exact .inl rfl
    · exact .inr hrest
  | cons x rest ih =>
    obtain ⟨hparent, hget, htail⟩ := htrail.of_cons
    obtain ⟨parent, hparent', hrest⟩ := Relation.TransGen.head'_iff.mp h
    obtain rfl : x.name = parent := Option.some.inj (hparent.symm.trans hparent')
    rcases Relation.reflTransGen_iff_eq_or_transGen.mp hrest with rfl | hrest
    · exact .inl (by simp)
    · rcases ih hrest (parentOf_of_get? hget ▸ htail) with hmem | hnext
      · exact .inl (List.mem_cons_of_mem _ hmem)
      · exact .inr hnext

/-! ## Contexts above themselves -/

/-- A context that is above itself has a walk back, which meets no name twice; and its
ancestors fail with its name. -/
theorem exists_trail_back {x : Context} (hx : x ∈ c.registry.contexts)
    (habove : c.Above x.name x.name) :
    ∃ met, c.registry.Trail (c.parentOf x.name) met (some x.name) ∧
      (met.map (·.name)).Nodup ∧ x.name ∉ met.map (·.name) ∧
      c.registry.ancestors x = .error (.cyclicContext x.name) := by
  have hget : c.registry.get? x.name = some x := indexed_registry.get?_of_mem hx
  obtain ⟨met, next, htrail, hnodup, hself, hout⟩ := c.registry.ancestors_spec x
  rw [← parentOf_of_get? hget] at htrail
  generalize c.registry.ancestors x = result at hout ⊢
  -- the walk meets every name above, so it cannot end before it is back
  obtain ⟨z, rfl, hz⟩ : ∃ z, next = some z ∧ (z = x.name ∨ c.Above z x.name) :=
    (habove.of_trail htrail).resolve_left hself
  cases hout with
  | missing hseen _ hnone =>
    exfalso
    rcases hz with rfl | hz
    · exact hseen List.mem_cons_self
    · obtain ⟨parent, hparent, -⟩ := Relation.TransGen.head'_iff.mp hz
      rw [parentOf_eq, hnone] at hparent
      cases hparent
  | cycle hmem =>
    rcases hmem with hmem | hmem
    · obtain rfl := List.mem_singleton.mp hmem
      exact ⟨met, htrail, hnodup, hself, rfl⟩
    · -- a cycle among the names met does not lead back to the start
      exfalso
      obtain ⟨y, hy, rfl⟩ := List.mem_map.mp hmem
      have hne : y.name ≠ x.name := fun heq => hself (heq ▸ hmem)
      obtain ⟨before, after, rfl⟩ := List.append_of_mem hy
      obtain ⟨hgety, htraily⟩ := htrail.cut
      rw [← parentOf_of_get? hgety] at htraily
      have hclosed := mem_of_above_of_trail htraily List.mem_cons_self (hz.resolve_left hne)
      refine hself ?_
      rw [List.map_append, List.map_cons]
      exact List.mem_append_right _ hclosed

/-- The name that failing ancestors come back to is above the context and above itself. -/
theorem above_of_ancestors {x : Context} (hx : x ∈ c.registry.contexts) {name : String}
    (h : c.registry.ancestors x = .error (.cyclicContext name)) :
    c.Above x.name name ∧ c.Above name name := by
  have hget : c.registry.get? x.name = some x := indexed_registry.get?_of_mem hx
  obtain ⟨met, next, htrail, -, -, hout⟩ := c.registry.ancestors_spec x
  rw [← parentOf_of_get? hget] at htrail
  rw [h] at hout
  cases hout with
  | cycle hmem =>
    have habove := above_of_trail htrail
    refine ⟨habove, ?_⟩
    rcases hmem with hmem | hmem
    · exact List.mem_singleton.mp hmem ▸ habove
    · obtain ⟨y, hy, rfl⟩ := List.mem_map.mp hmem
      obtain ⟨before, after, rfl⟩ := List.append_of_mem hy
      obtain ⟨hgety, htraily⟩ := htrail.cut
      exact above_of_trail (parentOf_of_get? hgety ▸ htraily)

/-- The ancestors of a context fail with its own name just if it is above itself. -/
theorem ancestors_eq_cyclic_iff {x : Context} (hx : x ∈ c.registry.contexts) :
    c.registry.ancestors x = .error (.cyclicContext x.name) ↔ c.Above x.name x.name := by
  constructor
  · intro h
    exact (above_of_ancestors hx h).1
  · intro habove
    obtain ⟨met, -, -, -, hfails⟩ := exists_trail_back hx habove
    exact hfails

/-! ## The chain that validation finds -/

/-- What validation finds on its way back. -/
theorem of_chainBack_eq_some {start : String} {seen : List String} {current : String}
    {chain : List String} (h : c.chainBack start seen current = some chain) :
    ∃ between, chain = between ++ [start] ∧ start ∉ between ∧ between.Nodup ∧
      (∀ name ∈ between, name ∉ seen) ∧
      (current :: chain).IsChain fun name parent => c.parentOf name = some parent := by
  induction seen, current using chainBack.induct c start generalizing chain with
  | case1 seen current hparent =>
    rw [chainBack, hparent] at h
    cases h
  | case2 seen current hparent =>
    rw [chainBack, hparent] at h
    obtain rfl : [start] = chain := by simpa using h
    exact ⟨[], rfl, by simp, List.nodup_nil, by simp, by simpa using hparent⟩
  | case3 seen current parent hparent hstart hseen =>
    rw [chainBack, hparent] at h
    simp [hstart, hseen] at h
  | case4 seen current parent hparent hstart hseen hkey ih =>
    rw [chainBack, hparent] at h
    obtain ⟨rest, hrest, rfl⟩ : ∃ rest, c.chainBack start (parent :: seen) parent = some rest ∧
        parent :: rest = chain := by
      simpa [hstart, hseen, hkey] using h
    obtain ⟨between, rfl, hnot, hnodup, hfresh, hchain⟩ := ih hrest
    refine ⟨parent :: between, rfl, ?_, ?_, ?_, ?_⟩
    · simpa [Ne.symm hstart] using hnot
    · exact List.nodup_cons.mpr ⟨fun hmem => hfresh parent hmem List.mem_cons_self, hnodup⟩
    · intro name hname
      rcases List.mem_cons.mp hname with rfl | hname
      · exact hseen
      · exact fun hmem => hfresh name hname (List.mem_cons_of_mem _ hmem)
    · exact List.isChain_cons_cons.mpr ⟨hparent, hchain⟩
  | case5 seen current parent hparent hstart hseen hkey =>
    rw [chainBack, hparent] at h
    simp [hstart, hseen, hkey] at h

/-- The chain of a context is its walk back. -/
theorem isReturn_of_parentCycle {name : String} {chain : List String}
    (h : c.parentCycle name = some chain) : c.IsReturn name chain := by
  obtain ⟨rest, hrest, rfl⟩ := Option.map_eq_some_iff.mp h
  obtain ⟨between, rfl, hnot, hnodup, -, hchain⟩ := of_chainBack_eq_some hrest
  exact ⟨between, rfl, hnot, hnodup, hchain⟩

/-- Validation finds a chain just for the names above themselves. -/
theorem exists_parentCycle_iff {name : String} :
    (∃ chain, c.parentCycle name = some chain) ↔ c.Above name name := by
  constructor
  · rintro ⟨chain, hchain⟩
    obtain ⟨between, rfl, -, -, hwalk⟩ := isReturn_of_parentCycle hchain
    exact above_of_isChain hwalk
  · intro habove
    obtain ⟨x, hx, rfl⟩ := exists_of_mem_keys habove.mem_keys
    obtain ⟨met, htrail, hnodup, hself, -⟩ := exists_trail_back hx habove
    have hfresh : ∀ y ∈ met, y.name ∉ [x.name] := by
      intro y hy hmem
      exact hself (List.mem_map.mpr ⟨y, hy, List.mem_singleton.mp hmem⟩)
    refine ⟨x.name :: (met.map (·.name) ++ [x.name]), ?_⟩
    rw [parentCycle, chainBack_of_trail htrail hnodup hself hfresh]
    rfl

/-! ## Problems and their subjects -/

/-- The problems with parents, one by one. -/
theorem mem_parentProblems {p : Problem} :
    p ∈ c.parentProblems ↔
      (∃ name parent, c.parentOf name = some parent ∧ parent ∉ c.contexts.keys ∧
        p = .unknownParent name parent) ∨
      ∃ name chain, c.parentCycle name = some chain ∧ p = .cyclicParents name chain := by
  rw [parentProblems, List.mem_flatMap]
  constructor
  · rintro ⟨⟨name, context⟩, he, hp⟩
    have hget : c.contexts.get? name = some context := OrderedMap.get?_eq_some_iff.mpr he
    rcases List.mem_append.mp hp with hp | hp
    · cases hparent : context.parent with
      | none => simp [hparent] at hp
      | some parent =>
        by_cases hkey : parent ∈ c.contexts.keys
        · simp [hparent, OrderedMap.contains_iff.mpr hkey] at hp
        · refine .inl ⟨name, parent, by rw [parentOf, hget]; exact hparent, hkey, ?_⟩
          simpa [hparent, mt OrderedMap.contains_iff.mp hkey] using hp
    · cases hcycle : c.parentCycle name with
      | none => simp [hcycle] at hp
      | some chain => exact .inr ⟨name, chain, hcycle, by simpa [hcycle] using hp⟩
  · rintro (⟨name, parent, hparent, hkey, rfl⟩ | ⟨name, chain, hcycle, rfl⟩)
    · obtain ⟨context, hget, hparent⟩ := Option.bind_eq_some_iff.mp hparent
      refine ⟨(name, context), OrderedMap.get?_eq_some_iff.mp hget, List.mem_append_left _ ?_⟩
      simp [hparent, mt OrderedMap.contains_iff.mp hkey]
    · have hkey := (exists_parentCycle_iff.mp ⟨chain, hcycle⟩).mem_keys
      obtain ⟨⟨name, context⟩, he, rfl⟩ := List.mem_map.mp hkey
      exact ⟨(name, context), he, List.mem_append_right _ (by simp [hcycle])⟩

theorem subject?_of_mem_ownership {p : Problem} (h : p ∈ c.ownership.2) : p.subject? = none := by
  rw [aliasProblems_eq] at h
  obtain ⟨e, -, h⟩ := List.mem_flatMap.mp h
  obtain ⟨a, -, h⟩ := List.mem_filterMap.mp h
  cases howner : c.owners.get? a with
  | none => simp [howner, contest] at h
  | some owner =>
    simp only [howner, contest] at h
    split at h
    · cases h
    · cases h
      rfl

/-- What is wrong with a key: it is no name, but an alias or nothing at all. -/
theorem keyProblem_eq_some_iff {p : Problem} {owners : Owners} {command key : String} :
    c.keyProblem owners command key = some p ↔ key ∉ c.contexts.keys ∧
      ((∃ owner, owners.get? key = some owner ∧ p = .aliasAsKey command key owner) ∨
        owners.get? key = none ∧ p = .unknownKey command key) := by
  rw [keyProblem]
  by_cases hkey : key ∈ c.contexts.keys
  · simp [OrderedMap.contains_iff.mpr hkey, hkey]
  · rw [if_neg (mt OrderedMap.contains_iff.mp hkey)]
    cases owners.get? key <;> simp [hkey, eq_comm]

/-- The problems with commands, one by one. -/
theorem mem_commandProblems {p : Problem} {owners : Owners} :
    p ∈ c.commandProblems owners ↔
      ∃ name command, c.commands.get? name = some command ∧
        (Text.isBlankText (command.help.getD "") = true ∧ p = .missingHelp name ∨
          (command.addArgs.isSome || command.clearArgs) = true ∧ p = .patchOnly name ∨
          ∃ key ∈ command.contexts.keys, c.keyProblem owners name key = some p) := by
  simp only [commandProblems, List.mem_flatMap, Prod.exists, OrderedMap.get?_eq_some_iff,
    List.mem_append, List.mem_ite_nil_right, List.mem_singleton, List.mem_filterMap, or_assoc]

/-- The problems with sources, one by one. -/
theorem mem_sourceProblems {p : Problem} {owners : Owners} :
    p ∈ c.sourceProblems owners ↔
      ∃ path source, c.sources.get? path = some source ∧ ∃ identifier ∈ source.contexts,
        identifier ∉ owners.keys ∧ p = .unknownSourceContext path identifier := by
  simp only [sourceProblems, List.mem_flatMap, Prod.exists, OrderedMap.get?_eq_some_iff,
    List.mem_filterMap, OrderedMap.contains_iff, Option.ite_none_left_eq_some, Option.some.injEq,
    eq_comm (a := p)]

theorem subject?_of_mem_commandProblems {p : Problem} {owners : Owners}
    (h : p ∈ c.commandProblems owners) : ∃ name, p.subject? = some (.command name) := by
  obtain ⟨name, command, -, ⟨-, rfl⟩ | ⟨-, rfl⟩ | ⟨key, -, hkey⟩⟩ := mem_commandProblems.mp h
  · exact ⟨name, rfl⟩
  · exact ⟨name, rfl⟩
  · rcases (keyProblem_eq_some_iff.mp hkey).2 with ⟨_, -, rfl⟩ | ⟨-, rfl⟩ <;> exact ⟨name, rfl⟩

theorem subject?_of_mem_sourceProblems {p : Problem} {owners : Owners}
    (h : p ∈ c.sourceProblems owners) : ∃ path, p.subject? = some (.source path) := by
  obtain ⟨path, _, -, _, -, -, rfl⟩ := mem_sourceProblems.mp h
  exact ⟨path, rfl⟩

theorem subject?_of_mem_parentProblems {p : Problem} (h : p ∈ c.parentProblems) :
    ∃ name, p.subject? = some (.context name) := by
  rcases mem_parentProblems.mp h with ⟨name, _, -, -, rfl⟩ | ⟨name, _, -, rfl⟩ <;>
    exact ⟨name, rfl⟩

/-- The part of the problems that those with a subject are in. -/
def problemsAbout (c : Config) : Option Problem.Subject → List Problem
  | none => c.ownership.2
  | some (.context _) => c.parentProblems
  | some (.command _) => c.commandProblems c.owners
  | some (.source _) => c.sourceProblems c.owners

/-- **Every problem has its part**, which its subject tells. -/
theorem mem_problems_iff_mem_about {p : Problem} :
    p ∈ c.problems ↔ p ∈ c.problemsAbout p.subject? := by
  have hparts : p ∈ c.problems ↔ p ∈ c.ownership.2 ∨ p ∈ c.parentProblems ∨
      p ∈ c.commandProblems c.owners ∨ p ∈ c.sourceProblems c.owners := by
    simp only [problems, owners, List.mem_append, or_assoc]
  rw [hparts]
  constructor
  · rintro (h | h | h | h)
    · rwa [subject?_of_mem_ownership h]
    · obtain ⟨_, hsubject⟩ := subject?_of_mem_parentProblems h
      rwa [hsubject]
    · obtain ⟨_, hsubject⟩ := subject?_of_mem_commandProblems h
      rwa [hsubject]
    · obtain ⟨_, hsubject⟩ := subject?_of_mem_sourceProblems h
      rwa [hsubject]
  · intro h
    rcases hsubject : p.subject? with - | ⟨_ | _ | _⟩ <;> rw [hsubject] at h
    · exact .inl h
    · exact .inr (.inl h)
    · exact .inr (.inr (.inl h))
    · exact .inr (.inr (.inr h))

/-- The problems about contexts are those with parents. -/
theorem mem_problems_iff {p : Problem} {name : String} (h : p.subject? = some (.context name)) :
    p ∈ c.problems ↔ p ∈ c.parentProblems := by
  rw [mem_problems_iff_mem_about, h]
  rfl

/-- The problems about commands are those with commands. -/
theorem mem_problems_iff_of_command {p : Problem} {name : String}
    (h : p.subject? = some (.command name)) : p ∈ c.problems ↔ p ∈ c.commandProblems c.owners := by
  rw [mem_problems_iff_mem_about, h]
  rfl

/-- The problems about sources are those with sources. -/
theorem mem_problems_iff_of_source {p : Problem} {path : String}
    (h : p.subject? = some (.source path)) : p ∈ c.problems ↔ p ∈ c.sourceProblems c.owners := by
  rw [mem_problems_iff_mem_about, h]
  rfl

/-! ## Problems about contexts -/

theorem cyclicParents_mem_problems {name : String} {chain : List String} :
    .cyclicParents name chain ∈ c.problems ↔ c.parentCycle name = some chain := by
  rw [mem_problems_iff rfl, mem_parentProblems]
  simp

theorem unknownParent_mem_problems {name parent : String} :
    .unknownParent name parent ∈ c.problems ↔
      c.parentOf name = some parent ∧ parent ∉ c.contexts.keys := by
  rw [mem_problems_iff rfl, mem_parentProblems]
  simp

/-- A name that only leads to names above themselves has no problem of its own. -/
theorem no_problem_of_feeding {name above : String} (hreach : c.Above name above)
    (hcycle : c.Above above above) (hnot : ¬ c.Above name name) {p : Problem}
    (hp : p ∈ c.problems) : p.subject? ≠ some (.context name) := by
  intro hsubject
  rw [mem_problems_iff hsubject, mem_parentProblems] at hp
  rcases hp with ⟨n, parent, hparent, hkey, rfl⟩ | ⟨n, chain, hchain, rfl⟩
  · obtain rfl : n = name := by simpa [Problem.subject?] using hsubject
    -- the parent is on the cycle, or has a parent itself
    obtain ⟨next, hnext, hrest⟩ := Relation.TransGen.head'_iff.mp hreach
    obtain rfl : parent = next := Option.some.inj (hparent.symm.trans hnext)
    rcases Relation.reflTransGen_iff_eq_or_transGen.mp hrest with rfl | hrest
    · exact hkey hcycle.mem_keys
    · exact hkey (Above.mem_keys hrest)
  · obtain rfl : n = name := by simpa [Problem.subject?] using hsubject
    exact hnot (exists_parentCycle_iff.mp ⟨chain, hchain⟩)

/-- A parent that no context has fails the ancestors. -/
theorem ancestors_of_unknownParent {x : Context} (hx : x ∈ c.registry.contexts) {parent : String}
    (hparent : x.parent = some parent) (hkey : parent ∉ c.contexts.keys) :
    c.registry.ancestors x = .error (.unknownContext parent) := by
  have hnone : c.registry.get? parent = none := by
    rwa [indexed_registry.get?_eq_none_iff, contexts_registry, contextList_map_name]
  have hne : parent ∉ [x.name] := by
    rw [List.mem_singleton]
    rintro rfl
    rw [indexed_registry.get?_of_mem hx] at hnone
    cases hnone
  rw [Registry.ancestors, hparent]
  exact Registry.climb_of_get?_eq_none hne hnone

/-- There are no problems with parents just if every context has its ancestors. -/
theorem parentProblems_eq_nil_iff_ancestors : c.parentProblems = [] ↔
    ∀ x ∈ c.registry.contexts, ∃ above, c.registry.ancestors x = .ok above := by
  constructor
  · intro h x hx
    exact ancestors_of_no_problem h (contexts_registry ▸ hx)
  · intro h
    rw [List.eq_nil_iff_forall_not_mem]
    intro p hp
    -- either problem is one with a registered context, whose ancestors fail
    rcases mem_parentProblems.mp hp with ⟨name, parent, hparent, hkey, -⟩ | ⟨name, chain, hchain, -⟩
    · obtain ⟨x, hx, rfl⟩ := exists_of_mem_keys (mem_keys_of_parentOf hparent)
      rw [parentOf_of_get? (indexed_registry.get?_of_mem hx)] at hparent
      obtain ⟨above, habove⟩ := h x hx
      rw [ancestors_of_unknownParent hx hparent hkey] at habove
      cases habove
    · have hcycle := exists_parentCycle_iff.mp ⟨chain, hchain⟩
      obtain ⟨x, hx, rfl⟩ := exists_of_mem_keys hcycle.mem_keys
      obtain ⟨above, habove⟩ := h x hx
      rw [(ancestors_eq_cyclic_iff hx).mpr hcycle] at habove
      cases habove

/-- Without problems about contexts there are none with parents. -/
theorem parentProblems_eq_nil_iff : c.parentProblems = [] ↔
    ∀ p ∈ c.problems, ∀ name, p.subject? ≠ some (.context name) := by
  rw [List.eq_nil_iff_forall_not_mem]
  constructor
  · intro h p hp name hsubject
    exact h p ((mem_problems_iff hsubject).mp hp)
  · intro h p hp
    obtain ⟨name, hsubject⟩ := subject?_of_mem_parentProblems hp
    exact h p ((mem_problems_iff hsubject).mpr hp) name hsubject

/-! ## Both judgements -/

/-- **Validation and the registry judge parents alike**, whether or not the configuration is
valid.

* There is no problem about a context just if every context has its ancestors.
* A context has a cyclic chain just if its ancestors fail with its own name; what is reported
  then is its walk back.
* A context has an unknown parent just if no context has the name that it gives; its ancestors
  fail with that name then.
* Ancestors that fail with a name lead to a context above itself. A context that merely leads
  to one has no problem of its own, and the other has. -/
theorem problems_agree_with_ancestors (c : Config) :
    ((∀ p ∈ c.problems, ∀ name, p.subject? ≠ some (.context name)) ↔
      ∀ x ∈ c.registry.contexts, ∃ above, c.registry.ancestors x = .ok above) ∧
    (∀ x ∈ c.registry.contexts,
      ((∃ chain, .cyclicParents x.name chain ∈ c.problems) ↔
        c.registry.ancestors x = .error (.cyclicContext x.name)) ∧
      (∀ chain, .cyclicParents x.name chain ∈ c.problems → c.IsReturn x.name chain ∧
        (Problem.cyclicParents x.name chain).message =
          "Context '" ++ x.name ++ "': " ++
            ("Cyclic parent chain: " ++ " -> ".intercalate chain)) ∧
      (∀ parent, .unknownParent x.name parent ∈ c.problems ↔
        x.parent = some parent ∧ ∀ y ∈ c.registry.contexts, y.name ≠ parent) ∧
      (∀ parent, .unknownParent x.name parent ∈ c.problems →
        c.registry.ancestors x = .error (.unknownContext parent)) ∧
      ∀ name, c.registry.ancestors x = .error (.cyclicContext name) →
        c.Above x.name name ∧ c.Above name name) ∧
    ∀ name above, c.Above name above → c.Above above above → ¬ c.Above name name →
      (∀ p ∈ c.problems, p.subject? ≠ some (.context name)) ∧
        ∃ chain, .cyclicParents above chain ∈ c.problems := by
  have hunknown : ∀ x ∈ c.registry.contexts, ∀ parent,
      .unknownParent x.name parent ∈ c.problems ↔
        x.parent = some parent ∧ parent ∉ c.contexts.keys := by
    intro x hx parent
    rw [unknownParent_mem_problems, parentOf_of_get? (indexed_registry.get?_of_mem hx)]
  refine ⟨?_, fun x hx => ⟨?_, ?_, ?_, ?_, ?_⟩, ?_⟩
  · rw [← parentProblems_eq_nil_iff, parentProblems_eq_nil_iff_ancestors]
  · simp only [cyclicParents_mem_problems]
    rw [exists_parentCycle_iff, ancestors_eq_cyclic_iff hx]
  · intro chain hchain
    exact ⟨isReturn_of_parentCycle (cyclicParents_mem_problems.mp hchain), rfl⟩
  · intro parent
    rw [hunknown x hx, forall_name_ne_iff]
  · intro parent h
    obtain ⟨hparent, hkey⟩ := (hunknown x hx parent).mp h
    exact ancestors_of_unknownParent hx hparent hkey
  · exact fun name => above_of_ancestors hx
  · intro name above hreach hcycle hnot
    refine ⟨fun p hp => no_problem_of_feeding hreach hcycle hnot hp, ?_⟩
    simp only [cyclicParents_mem_problems]
    exact exists_parentCycle_iff.mpr hcycle

end Checkup.Config
