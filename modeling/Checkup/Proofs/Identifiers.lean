import Checkup.Proofs.Layering

/-!
# Identifiers, validated and resolved

Validation gives identifiers their owners, the registry resolves them. The two judge alike, also
where a configuration is not valid:

* `Config.get?_owners_eq_some_iff`, `Config.get?_owners_eq_none_iff` — the owner of an identifier
  is the context that it is resolved to.
* `Config.filter_isAmbiguous` — the problems with aliases among all problems.
* `aliasClaims`, `IsLostClaim` — which contexts claim an alias, and which of them lose it to
  another (`Config.aliasProblems_eq_claims`).
* `Config.unknownSourceContext_mem_problems`, `Config.aliasAsKey_mem_problems`,
  `Config.unknownKey_mem_problems` — what is reported of the identifiers of sources and commands.
* `Config.identifiers_judged_as_resolved` — all of it, side by side.
-/

namespace Checkup

/-- Whether a problem is an alias that two contexts claim. -/
def Problem.isAmbiguous : Problem → Bool
  | ambiguousAlias .. => true
  | _ => false

theorem Problem.isAmbiguous_eq (p : Problem) : p.isAmbiguous = p.subject?.isNone := by
  cases p <;> rfl

/-- The aliases that contexts claim, in declaration order. Its own name is no claim of a context. -/
def aliasClaims (contexts : List Context) : List (Context × String) :=
  contexts.flatMap fun x => (x.aliases.filter fun a => a ≠ x.name).map (x, ·)

/-- A problem with a claim on an alias that is resolved to another context. -/
def IsLostClaim (r : Registry) (claim : Context × String) (p : Problem) : Prop :=
  ∃ x, r.resolve claim.2 = .ok x ∧ x ≠ claim.1 ∧ p = .ambiguousAlias claim.2 x.name claim.1.name

/-- What is found for the elements of a list belongs, one to one, to those that something is
found for. -/
theorem forall₂_filter_filterMap {α β : Type*} {R : α → β → Prop} {f : α → Option β}
    {p : α → Bool} {l : List α} (hnone : ∀ x ∈ l, p x = false → f x = none)
    (hsome : ∀ x ∈ l, p x = true → ∃ y, f x = some y ∧ R x y) :
    List.Forall₂ R (l.filter p) (l.filterMap f) := by
  induction l with
  | nil => exact .nil
  | cons x rest ih =>
    have ih := ih (fun z hz => hnone z (List.mem_cons_of_mem _ hz))
      fun z hz => hsome z (List.mem_cons_of_mem _ hz)
    cases hp : p x with
    | false =>
      rw [List.filter_cons_of_neg (by simp [hp]),
        List.filterMap_cons_none (hnone x List.mem_cons_self hp)]
      exact ih
    | true =>
      obtain ⟨y, hy, hxy⟩ := hsome x List.mem_cons_self hp
      rw [List.filter_cons_of_pos hp, List.filterMap_cons_some hy]
      exact .cons hxy ih

namespace Config

variable {c : Config} {identifier name : String}

/-! ## Owners and what identifiers are resolved to -/

/-- The owner of an identifier is the context that it should mean. -/
theorem get?_owners_eq (identifier : String) :
    c.owners.get? identifier = (Registry.meant? c.contextList identifier).map (·.name) := by
  have hname : c.nameOwners.get? identifier =
      (c.contextList.find? fun x => x.name = identifier).map (·.name) := by
    have hfind : (c.contextList.find? fun x => x.name = identifier) =
        (c.contexts.get? identifier).map fun settings => settings.toContext identifier :=
      OrderedMap.find?_map_entries (fun name settings => settings.toContext name) (·.name)
        (fun _ _ => rfl) c.contexts identifier
    rw [nameOwners, OrderedMap.get?_mapValues, hfind, Option.map_map]
    rfl
  have halias : claimant? c.contexts.entries identifier =
      (c.contextList.find? fun x => x.aliases.contains identifier).map (·.name) := by
    rw [claimant?, contextList, List.find?_map, Option.map_map]
    rfl
  rw [get?_owners, ownerAfter, hname, halias, Registry.meant?, Option.map_or]

theorem get?_owners_eq_some_iff :
    c.owners.get? identifier = some name ↔
      ∃ x, c.registry.resolve identifier = .ok x ∧ x.name = name := by
  rw [get?_owners_eq, indexed_registry.resolve_eq, contexts_registry]
  cases Registry.meant? c.contextList identifier <;> simp

theorem get?_owners_eq_none_iff :
    c.owners.get? identifier = none ↔
      c.registry.resolve identifier = .error (.unknownContext identifier) := by
  rw [get?_owners_eq, indexed_registry.resolve_eq, contexts_registry]
  cases Registry.meant? c.contextList identifier <;> simp

/-! ## Claims on aliases -/

/-- The problems with aliases are the ambiguous ones among all problems. -/
theorem filter_isAmbiguous : c.problems.filter Problem.isAmbiguous = c.ownership.2 := by
  have halias : c.ownership.2.filter Problem.isAmbiguous = c.ownership.2 := by
    refine List.filter_eq_self.mpr fun p hp => ?_
    rw [Problem.isAmbiguous_eq, subject?_of_mem_ownership hp]
    rfl
  -- all others have a subject
  have hnone : ∀ l : List Problem, (∀ p ∈ l, ∃ subject, p.subject? = some subject) →
      l.filter Problem.isAmbiguous = [] := by
    intro l hl
    refine List.filter_eq_nil_iff.mpr fun p hp => ?_
    obtain ⟨subject, hsubject⟩ := hl p hp
    simp [Problem.isAmbiguous_eq, hsubject]
  have hparent := hnone c.parentProblems fun p hp =>
    (subject?_of_mem_parentProblems hp).elim fun _ h => ⟨_, h⟩
  have hcommand := hnone (c.commandProblems c.owners) fun p hp =>
    (subject?_of_mem_commandProblems hp).elim fun _ h => ⟨_, h⟩
  have hsource := hnone (c.sourceProblems c.owners) fun p hp =>
    (subject?_of_mem_sourceProblems hp).elim fun _ h => ⟨_, h⟩
  rw [owners] at hcommand hsource
  simp [problems, halias, hparent, hcommand, hsource]

theorem ambiguousAlias_mem_problems {first second : String} :
    .ambiguousAlias identifier first second ∈ c.problems ↔
      .ambiguousAlias identifier first second ∈ c.ownership.2 := by
  rw [← filter_isAmbiguous, List.mem_filter]
  exact (and_iff_left rfl).symm

/-- The problems with aliases, claim by claim. -/
theorem aliasProblems_eq_claims :
    c.ownership.2 = (aliasClaims c.contextList).filterMap fun claim =>
      contest (c.owners.get? claim.2) claim.1.name claim.2 := by
  rw [aliasProblems_eq, aliasClaims, contextList, List.flatMap_map, List.filterMap_flatMap]
  refine List.flatMap_congr fun e he => ?_
  rw [List.filterMap_map, List.filterMap_filter]
  refine List.filterMap_congr fun a _ => ?_
  -- the own name is no claim; and nobody contests it
  by_cases ha : a = e.1
  · subst ha
    have howner : c.owners.get? e.1 = some e.1 := by
      rw [get?_owners, ownerAfter, get?_nameOwners_of_mem he]
      rfl
    simp [howner, contest, ContextConfig.toContext]
  · simp [ha, ContextConfig.toContext]

/-- Whoever claims an alias is a configured context that has it. -/
theorem mem_of_mem_aliasClaims {claim : Context × String} (h : claim ∈ aliasClaims c.contextList) :
    claim.1 ∈ c.contextList ∧ claim.1.answersTo claim.2 = true := by
  obtain ⟨x, hx, h⟩ := List.mem_flatMap.mp h
  obtain ⟨a, ha, rfl⟩ := List.mem_map.mp h
  have halias : x.aliases.contains a = true :=
    List.contains_iff_mem.mpr (List.mem_filter.mp ha).1
  exact ⟨hx, by rw [Context.answersTo, halias, Bool.or_true]⟩

/-- What a configured context answers to is resolved, to a configured context. -/
theorem exists_resolve_of_answersTo {x : Context} (hx : x ∈ c.contextList)
    (hid : x.answersTo identifier = true) :
    ∃ y ∈ c.contextList, y.answersTo identifier = true ∧
      c.registry.resolve identifier = .ok y := by
  rw [indexed_registry.resolve_eq, contexts_registry]
  cases hmeant : Registry.meant? c.contextList identifier with
  | none => exact absurd hid (Registry.meant?_eq_none_iff.mp hmeant x hx)
  | some y =>
    obtain ⟨hy, hyid⟩ := Registry.of_meant?_eq_some hmeant
    exact ⟨y, hy, hyid, rfl⟩

/-- **A claim is contested** just if the alias is resolved to another context, which is the first
that is named. -/
theorem contest_claim {claim : Context × String} (h : claim ∈ aliasClaims c.contextList) :
    (c.registry.resolve claim.2 = .ok claim.1 →
      contest (c.owners.get? claim.2) claim.1.name claim.2 = none) ∧
    (c.registry.resolve claim.2 ≠ .ok claim.1 →
      ∃ p, contest (c.owners.get? claim.2) claim.1.name claim.2 = some p ∧
        IsLostClaim c.registry claim p) := by
  obtain ⟨hx, hid⟩ := mem_of_mem_aliasClaims h
  obtain ⟨y, hy, -, hresolve⟩ := exists_resolve_of_answersTo hx hid
  have howner : c.owners.get? claim.2 = some y.name :=
    get?_owners_eq_some_iff.mpr ⟨y, hresolve, rfl⟩
  rw [howner, contest, hresolve]
  constructor
  · intro hsame
    obtain rfl := Except.ok.inj hsame
    exact if_pos rfl
  · intro hother
    have hne : y ≠ claim.1 := fun heq => hother (congrArg _ heq)
    have hname : y.name ≠ claim.1.name := fun heq =>
      hne (List.inj_on_of_nodup_map contextList_nodup hy hx heq)
    exact ⟨_, if_neg hname, y, hresolve, hne, rfl⟩

/-- **Ambiguous aliases are the claims that are lost**, one problem for each, in declaration
order. -/
theorem forall₂_lostClaims :
    List.Forall₂ (IsLostClaim c.registry)
      ((aliasClaims c.registry.contexts).filter fun claim =>
        c.registry.resolve claim.2 ≠ .ok claim.1)
      (c.problems.filter Problem.isAmbiguous) := by
  rw [filter_isAmbiguous, aliasProblems_eq_claims, contexts_registry]
  refine forall₂_filter_filterMap (fun claim hclaim hkept => ?_) fun claim hclaim hlost => ?_
  · exact (contest_claim hclaim).1 (by simpa using hkept)
  · exact (contest_claim hclaim).2 (by simpa using hlost)

/-- No claim is lost just if every identifier has at most one context that answers to it. -/
theorem no_ambiguousAlias_iff :
    (∀ identifier first second, .ambiguousAlias identifier first second ∉ c.problems) ↔
      ∀ identifier, ∀ x ∈ c.registry.contexts, ∀ y ∈ c.registry.contexts,
        x.answersTo identifier = true → y.answersTo identifier = true → x = y := by
  simp only [ambiguousAlias_mem_problems, contexts_registry]
  constructor
  · intro hnone identifier
    refine eq_of_answersTo (List.eq_nil_iff_forall_not_mem.mpr fun p hp => ?_)
    have hsubject := subject?_of_mem_ownership hp
    cases p with
    | ambiguousAlias identifier first second => exact hnone identifier first second hp
    | _ => cases hsubject
  · intro honly identifier first second hmem
    rw [aliasProblems_eq_claims] at hmem
    obtain ⟨claim, hclaim, hcontest⟩ := List.mem_filterMap.mp hmem
    -- whoever has the alias answers to it as the claimant does
    obtain ⟨hx, hid⟩ := mem_of_mem_aliasClaims hclaim
    obtain ⟨y, hy, hyid, hresolve⟩ := exists_resolve_of_answersTo hx hid
    obtain rfl := honly claim.2 y hy claim.1 hx hyid hid
    rw [(contest_claim hclaim).1 hresolve] at hcontest
    cases hcontest

/-! ## Identifiers of sources and commands -/

/-- Whether a source asks for an identifier. -/
def SourceAsks (c : Config) (path identifier : String) : Prop :=
  ∃ settings, c.sources.get? path = some settings ∧ identifier ∈ settings.contexts

/-- Whether a command has an identifier as the key of a context. -/
def CommandHasKey (c : Config) (command key : String) : Prop :=
  ∃ settings, c.commands.get? command = some settings ∧ key ∈ settings.contexts.keys

/-- The identifier of a source is reported just if it cannot be resolved. -/
theorem unknownSourceContext_mem_problems {path : String} :
    .unknownSourceContext path identifier ∈ c.problems ↔
      c.SourceAsks path identifier ∧
        c.registry.resolve identifier = .error (.unknownContext identifier) := by
  rw [mem_problems_iff_of_source rfl, mem_sourceProblems, ← get?_owners_eq_none_iff,
    OrderedMap.get?_eq_none_iff]
  constructor
  · rintro ⟨_, settings, hget, _, hasked, hunowned, heq⟩
    obtain ⟨rfl, rfl⟩ := Problem.unknownSourceContext.inj heq
    exact ⟨⟨settings, hget, hasked⟩, hunowned⟩
  · rintro ⟨⟨settings, hget, hasked⟩, hunowned⟩
    exact ⟨path, settings, hget, identifier, hasked, hunowned, rfl⟩

/-- The key of a command is reported as an alias just if it is no name, but can be resolved. -/
theorem aliasAsKey_mem_problems {command key owner : String} :
    .aliasAsKey command key owner ∈ c.problems ↔
      c.CommandHasKey command key ∧ (∀ x ∈ c.registry.contexts, x.name ≠ key) ∧
        ∃ x, c.registry.resolve key = .ok x ∧ x.name = owner := by
  rw [mem_problems_iff_of_command rfl, mem_commandProblems, forall_name_ne_iff,
    ← get?_owners_eq_some_iff]
  simp only [keyProblem_eq_some_iff]
  constructor
  · rintro ⟨_, settings, hget, ⟨-, ⟨⟩⟩ | ⟨-, ⟨⟩⟩ | ⟨_, hkey, hname, ⟨_, howner, ⟨⟩⟩ | ⟨-, ⟨⟩⟩⟩⟩
    exact ⟨⟨settings, hget, hkey⟩, hname, howner⟩
  · rintro ⟨⟨settings, hget, hkey⟩, hname, howner⟩
    exact ⟨command, settings, hget, .inr (.inr ⟨key, hkey, hname, .inl ⟨owner, howner, rfl⟩⟩)⟩

/-- It is reported as unknown just if it is neither a name nor can be resolved. -/
theorem unknownKey_mem_problems {command key : String} :
    .unknownKey command key ∈ c.problems ↔
      c.CommandHasKey command key ∧ (∀ x ∈ c.registry.contexts, x.name ≠ key) ∧
        c.registry.resolve key = .error (.unknownContext key) := by
  rw [mem_problems_iff_of_command rfl, mem_commandProblems, forall_name_ne_iff,
    ← get?_owners_eq_none_iff]
  simp only [keyProblem_eq_some_iff]
  constructor
  · rintro ⟨_, settings, hget, ⟨-, ⟨⟩⟩ | ⟨-, ⟨⟩⟩ | ⟨_, hkey, hname, ⟨_, -, ⟨⟩⟩ | ⟨howner, ⟨⟩⟩⟩⟩
    exact ⟨⟨settings, hget, hkey⟩, hname, howner⟩
  · rintro ⟨⟨settings, hget, hkey⟩, hname, howner⟩
    exact ⟨command, settings, hget, .inr (.inr ⟨key, hkey, hname, .inr ⟨howner, rfl⟩⟩)⟩

/-- **Validation judges identifiers as the registry resolves them**, whether or not the
configuration is valid.

* There is no problem with an alias just if every identifier has at most one context that answers
  to it.
* Otherwise every claim on an alias that is resolved to another context is one problem, in
  declaration order, with the name of that context first and the claimant's second.
* The identifier of a source is reported just if it cannot be resolved.
* The key of a command is reported just if it is no name of a context: as an alias of the context
  that it is resolved to, or as unknown if it cannot be resolved. -/
theorem identifiers_judged_as_resolved (c : Config) :
    ((∀ identifier first second, .ambiguousAlias identifier first second ∉ c.problems) ↔
      ∀ identifier, ∀ x ∈ c.registry.contexts, ∀ y ∈ c.registry.contexts,
        x.answersTo identifier = true → y.answersTo identifier = true → x = y) ∧
    List.Forall₂ (IsLostClaim c.registry)
      ((aliasClaims c.registry.contexts).filter fun claim =>
        c.registry.resolve claim.2 ≠ .ok claim.1)
      (c.problems.filter Problem.isAmbiguous) ∧
    (∀ path identifier, .unknownSourceContext path identifier ∈ c.problems ↔
      c.SourceAsks path identifier ∧
        c.registry.resolve identifier = .error (.unknownContext identifier)) ∧
    ∀ command key,
      (∀ owner, .aliasAsKey command key owner ∈ c.problems ↔
        c.CommandHasKey command key ∧ (∀ x ∈ c.registry.contexts, x.name ≠ key) ∧
          ∃ x, c.registry.resolve key = .ok x ∧ x.name = owner) ∧
      (.unknownKey command key ∈ c.problems ↔
        c.CommandHasKey command key ∧ (∀ x ∈ c.registry.contexts, x.name ≠ key) ∧
          c.registry.resolve key = .error (.unknownContext key)) :=
  ⟨no_ambiguousAlias_iff, forall₂_lostClaims, fun _ _ => unknownSourceContext_mem_problems,
    fun _ _ => ⟨fun _ => aliasAsKey_mem_problems, unknownKey_mem_problems⟩⟩

/-- Three contexts claim one alias, and one of them the name of another and its own name. -/
def contested : Config where
  contexts := .ofList
    [("standard", { aliases := ["s"] }), ("strict", { aliases := ["s", "test", "strict"] }),
      ("test", { aliases := ["s"] })]
  commands := .ofList
    [("mypy", { help := some "Types",
                contexts := .ofList [("s", .flag true), ("ghost", .flag true)] })]
  sources := .ofList [("lib", { contexts := ["s", "spook"] })]

theorem identifiers_judged_as_resolved_contested :
    (contested.problems.filter Problem.isAmbiguous).length = 3 ∧
    .unknownSourceContext "lib" "spook" ∈ contested.problems ∧
    .aliasAsKey "mypy" "s" "standard" ∈ contested.problems ∧
    .unknownKey "mypy" "ghost" ∈ contested.problems := by
  obtain ⟨-, hlost, hsources, hkeys⟩ := identifiers_judged_as_resolved contested
  refine ⟨hlost.length_eq.symm.trans (by decide +kernel), (hsources "lib" "spook").mpr ?_,
    ((hkeys "mypy" "s").1 "standard").mpr ?_, (hkeys "mypy" "ghost").2.mpr ?_⟩
  · exact ⟨⟨_, rfl, by decide⟩, by decide +kernel⟩
  · exact ⟨⟨_, rfl, by decide⟩, by decide +kernel, _, rfl, rfl⟩
  · exact ⟨⟨_, rfl, by decide⟩, by decide +kernel, by decide +kernel⟩

end Config

end Checkup
