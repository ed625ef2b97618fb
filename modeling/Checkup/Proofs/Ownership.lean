import Checkup.Config.Validation
import Checkup.Proofs.Registry

/-!
# Owners and the registry

Validation gives every identifier an owner, the registry leads it to a context. The
two agree, also where a configuration is not valid:

* `get?_owners` — the owner of an identifier is the context that it means.
* `aliasProblems_eq` — a claimed alias is a problem exactly when another context
  owns it.
* `knows_iff_owned`, `resolve_eq_ok_iff` — without alias problems, owners and
  look-ups say which contexts answer to an identifier.
-/

namespace Checkup.Config

/-- Whether an identifier is the name or an alias of a configured context. -/
def Knows (c : Config) (identifier : String) : Prop :=
  ∃ name context, (name, context) ∈ c.contexts.entries ∧
    (identifier = name ∨ identifier ∈ context.aliases)

/-- The contexts of a configuration, in their order. -/
def contextList (c : Config) : List Context :=
  c.contexts.entries.map fun (name, context) => context.toContext name

/-! ## Claims -/

/-- What is wrong with a claim on an identifier that may have an owner already. -/
def contest (owner : Option String) (name identifier : String) : Option Problem :=
  match owner with
  | some owner => if owner = name then none else some (.ambiguousAlias identifier owner name)
  | none => none

/-- An own claim changes nothing about whether a further one is contested. -/
theorem contest_or_self (owner : Option String) (name identifier : String) (claimed : Prop)
    [Decidable claimed] :
    contest (owner.or (if claimed then some name else none)) name identifier =
      contest owner name identifier := by
  cases owner with
  | some owner => rfl
  | none => by_cases h : claimed <;> simp [h, contest]

theorem claimAlias_spec {owners : Owners} {name : String} (h : owners.get? name = some name)
    (problems : List Problem) (a : String) :
    (∀ identifier, (claimAlias name (owners, problems) a).1.get? identifier =
        (owners.get? identifier).or (if a = identifier then some name else none)) ∧
      (claimAlias name (owners, problems) a).2 =
        problems ++ (contest (owners.get? a) name a).toList := by
  unfold claimAlias
  -- the own name is no claim; another identifier is new, or keeps the owner that it has
  by_cases ha : a = name
  · subst ha
    simp only [if_true, h, contest]
    refine ⟨fun identifier => ?_, by simp⟩
    by_cases hid : a = identifier
    · subst hid
      simp [h]
    · simp [hid]
  · simp only [ha, if_false]
    cases hown : owners.get? a with
    | none =>
      simp only [contest, Option.toList_none, List.append_nil, and_true]
      intro identifier
      rw [OrderedMap.get?_insert]
      by_cases hid : a = identifier
      · subst hid
        simp [hown]
      · simp [hid]
    | some owner =>
      have hkeep : ∀ identifier, owners.get? identifier =
          (owners.get? identifier).or (if a = identifier then some name else none) := by
        intro identifier
        by_cases hid : a = identifier
        · subst hid
          simp [hown]
        · simp [hid]
      by_cases ho : owner = name
      · simp only [ho, if_true, contest, Option.toList_none, List.append_nil, and_true]
        exact hkeep
      · simp only [ho, if_false, contest, Option.toList_some, and_true]
        exact hkeep

/-- What the claims of one context do. -/
theorem claimAliases_spec (aliases : List String) {name : String} :
    ∀ {owners : Owners} (problems : List Problem), owners.get? name = some name →
      (∀ identifier, (aliases.foldl (claimAlias name) (owners, problems)).1.get? identifier =
          (owners.get? identifier).or (if identifier ∈ aliases then some name else none)) ∧
        (aliases.foldl (claimAlias name) (owners, problems)).2 =
          problems ++ aliases.filterMap fun a => contest (owners.get? a) name a := by
  induction aliases with
  | nil => intro owners problems _; simp
  | cons a rest ih =>
    intro owners problems h
    obtain ⟨hown, hprob⟩ := claimAlias_spec h problems a
    have hname : (claimAlias name (owners, problems) a).1.get? name = some name := by
      rw [hown, h]
      rfl
    obtain ⟨ihown, ihprob⟩ := ih (claimAlias name (owners, problems) a).2 hname
    refine ⟨fun identifier => ?_, ?_⟩
    · rw [List.foldl_cons, ihown, hown, Option.or_assoc]
      by_cases ha : a = identifier
      · subst ha
        simp
      · simp [ha, Ne.symm ha]
    · rw [List.foldl_cons, ihprob, hprob, List.append_assoc]
      simp only [hown, contest_or_self]
      cases hc : contest (owners.get? a) name a <;> simp [hc]

/-! ## All claims together -/

/-- The first of the entries that has an identifier as an alias. -/
def claimant? (entries : List (String × ContextConfig)) (identifier : String) : Option String :=
  (entries.find? fun e => e.2.aliases.contains identifier).map Prod.fst

/-- The owner of an identifier once the entries have made their claims. -/
def ownerAfter (owners : Owners) (entries : List (String × ContextConfig)) (identifier : String) :
    Option String :=
  (owners.get? identifier).or (claimant? entries identifier)

/-- The claims of entries, one after the other. -/
def claims (entries : List (String × ContextConfig)) (state : Owners × List Problem) :
    Owners × List Problem :=
  entries.foldl (fun state (name, context) => context.aliases.foldl (claimAlias name) state) state

theorem claims_spec (entries : List (String × ContextConfig)) :
    ∀ {owners : Owners} (problems : List Problem), (∀ e ∈ entries, owners.get? e.1 = some e.1) →
      (∀ identifier, (claims entries (owners, problems)).1.get? identifier =
          ownerAfter owners entries identifier) ∧
        (claims entries (owners, problems)).2 = problems ++ entries.flatMap fun e =>
          e.2.aliases.filterMap fun a => contest (ownerAfter owners entries a) e.1 a := by
  induction entries with
  | nil =>
    intro owners problems _
    simp [claims, ownerAfter, claimant?]
  | cons e rest ih =>
    obtain ⟨name, context⟩ := e
    intro owners problems h
    have hname : owners.get? name = some name := h _ List.mem_cons_self
    obtain ⟨hown, hprob⟩ := claimAliases_spec context.aliases problems hname
    have hnames : ∀ e ∈ rest, (context.aliases.foldl (claimAlias name)
        (owners, problems)).1.get? e.1 = some e.1 := by
      intro e he
      rw [hown, h e (List.mem_cons_of_mem _ he)]
      rfl
    obtain ⟨ihown, ihprob⟩ :=
      ih (context.aliases.foldl (claimAlias name) (owners, problems)).2 hnames
    have hstep : ∀ identifier,
        ownerAfter (context.aliases.foldl (claimAlias name) (owners, problems)).1 rest identifier =
          ownerAfter owners ((name, context) :: rest) identifier := by
      intro identifier
      rw [ownerAfter, ownerAfter, hown]
      by_cases hid : identifier ∈ context.aliases <;> simp [claimant?, hid]
    refine ⟨fun identifier => (ihown identifier).trans (hstep identifier), ?_⟩
    rw [claims, List.foldl_cons]
    refine ihprob.trans ?_
    rw [hprob, List.append_assoc, List.flatMap_cons]
    congr 2
    -- its own claims are contested by earlier owners only
    · refine List.filterMap_congr fun a ha => ?_
      cases hoa : owners.get? a <;> simp [ownerAfter, hoa, claimant?, ha, contest]
    · simp only [hstep]

/-! ## Owners and meanings -/

variable {c : Config}

theorem get?_nameOwners_of_mem {e : String × ContextConfig} (he : e ∈ c.contexts.entries) :
    c.nameOwners.get? e.1 = some e.1 := by
  rw [nameOwners, OrderedMap.get?_mapValues, OrderedMap.get?_eq_some_iff.mpr he]
  rfl

/-- **Ownership**: names first, then the first of the contexts that have it as an alias. -/
theorem get?_owners (identifier : String) :
    c.owners.get? identifier = ownerAfter c.nameOwners c.contexts.entries identifier :=
  (claims_spec c.contexts.entries [] fun _ he => get?_nameOwners_of_mem he).1 identifier

/-- The problems with aliases, read off the owners. -/
theorem aliasProblems_eq :
    c.ownership.2 = c.contexts.entries.flatMap fun e =>
      e.2.aliases.filterMap fun a => contest (c.owners.get? a) e.1 a := by
  simp only [get?_owners]
  exact (claims_spec c.contexts.entries [] fun _ he => get?_nameOwners_of_mem he).2

/-! ## Which contexts answer -/

theorem mem_contextList {x : Context} :
    x ∈ c.contextList ↔ ∃ e ∈ c.contexts.entries, e.2.toContext e.1 = x := by
  simp [contextList]

/-- The names in the list are the keys of the table. -/
theorem contextList_map_name : c.contextList.map (·.name) = c.contexts.keys := by
  simp [contextList, OrderedMap.keys, ContextConfig.toContext, Function.comp_def]

theorem contextList_nodup : (c.contextList.map (·.name)).Nodup := by
  rw [contextList_map_name]
  exact c.contexts.keys_nodup

/-- The registry holds the configured contexts as they are. -/
theorem contexts_registry : c.registry.contexts = c.contextList :=
  Registry.contexts_ofContexts contextList_nodup

theorem indexed_registry : c.registry.Indexed := Registry.indexed_ofContexts _

theorem answersTo_toContext {e : String × ContextConfig} {identifier : String} :
    (e.2.toContext e.1).answersTo identifier = true ↔
      identifier = e.1 ∨ identifier ∈ e.2.aliases := by
  rw [Context.answersTo, Bool.or_eq_true, decide_eq_true_eq, List.contains_iff_mem]
  exact or_congr_left eq_comm

/-- An identifier is known exactly when a configured context answers to it. -/
theorem knows_iff_exists {identifier : String} :
    c.Knows identifier ↔ ∃ x ∈ c.contextList, x.answersTo identifier = true := by
  constructor
  · rintro ⟨name, context, he, hid⟩
    exact ⟨context.toContext name, mem_contextList.mpr ⟨_, he, rfl⟩,
      answersTo_toContext (e := (name, context)).mpr hid⟩
  · rintro ⟨x, hx, hid⟩
    obtain ⟨⟨name, context⟩, he, rfl⟩ := mem_contextList.mp hx
    exact ⟨name, context, he, answersTo_toContext.mp hid⟩

/-- An identifier is known exactly when it has an owner. -/
theorem knows_iff_owned {identifier : String} :
    c.Knows identifier ↔ c.owners.contains identifier = true := by
  rw [OrderedMap.contains, get?_owners, ownerAfter, claimant?, nameOwners,
    OrderedMap.get?_mapValues, Option.isSome_or, Bool.or_eq_true, Option.isSome_map,
    Option.isSome_map, List.find?_isSome, ← OrderedMap.contains, OrderedMap.contains_iff]
  constructor
  · rintro ⟨name, context, he, rfl | halias⟩
    · exact .inl (List.mem_map.mpr ⟨_, he, rfl⟩)
    · exact .inr ⟨_, he, by simpa using halias⟩
  · rintro (hkey | ⟨⟨name, context⟩, he, halias⟩)
    · obtain ⟨⟨name, context⟩, he, rfl⟩ := List.mem_map.mp hkey
      exact ⟨name, context, he, .inl rfl⟩
    · exact ⟨name, context, he, .inr (by simpa using halias)⟩

/-- Without problems, whoever answers to an identifier owns it. -/
theorem owner_of_answersTo (h : c.ownership.2 = []) {e : String × ContextConfig}
    (he : e ∈ c.contexts.entries) {identifier : String}
    (hid : (e.2.toContext e.1).answersTo identifier = true) :
    c.owners.get? identifier = some e.1 := by
  -- names own themselves, and an alias with another owner would be a problem
  rcases answersTo_toContext.mp hid with rfl | halias
  · rw [get?_owners, ownerAfter, get?_nameOwners_of_mem he]
    rfl
  · have hknown : c.owners.contains identifier = true :=
      knows_iff_owned.mp ⟨e.1, e.2, he, .inr halias⟩
    obtain ⟨owner, howner⟩ := Option.isSome_iff_exists.mp hknown
    rw [aliasProblems_eq, List.flatMap_eq_nil_iff] at h
    have hfine := List.filterMap_eq_nil_iff.mp (h e he) identifier halias
    rw [howner]
    by_contra hne
    rw [howner, contest, if_neg fun heq => hne (congrArg some heq)] at hfine
    cases hfine

/-- **Without problems every identifier has at most one context that answers to it.** -/
theorem eq_of_answersTo (h : c.ownership.2 = []) {identifier : String} :
    ∀ x ∈ c.contextList, ∀ y ∈ c.contextList, x.answersTo identifier = true →
      y.answersTo identifier = true → x = y := by
  intro x hx y hy hxid hyid
  obtain ⟨e, he, rfl⟩ := mem_contextList.mp hx
  obtain ⟨d, hd, rfl⟩ := mem_contextList.mp hy
  have howner := (owner_of_answersTo h he hxid).symm.trans (owner_of_answersTo h hd hyid)
  have hname : e.1 = d.1 := Option.some.inj howner
  rw [List.inj_on_of_nodup_map c.contexts.nodup he hd hname]

/-- Without problems resolving finds exactly the context that answers. -/
theorem resolve_eq_ok_iff (h : c.ownership.2 = []) {identifier : String} {x : Context} :
    c.registry.resolve identifier = .ok x ↔
      x ∈ c.contextList ∧ x.answersTo identifier = true := by
  rw [indexed_registry.resolve_eq, contexts_registry,
    ← Registry.meant?_eq_some_iff (eq_of_answersTo h)]
  cases Registry.meant? c.contextList identifier <;> simp

/-- Resolving succeeds on the known identifiers; otherwise the error names the identifier. -/
theorem resolve_cases (identifier : String) :
    (c.Knows identifier ∧ ∃ x ∈ c.contextList, c.registry.resolve identifier = .ok x) ∨
      (¬ c.Knows identifier ∧
        c.registry.resolve identifier = .error (.unknownContext identifier)) := by
  rw [indexed_registry.resolve_eq, contexts_registry, knows_iff_exists]
  cases hm : Registry.meant? c.contextList identifier with
  | some x =>
    have hx := Registry.of_meant?_eq_some hm
    exact .inl ⟨⟨x, hx⟩, x, hx.1, rfl⟩
  | none =>
    refine .inr ⟨fun ⟨x, hx, hid⟩ => ?_, rfl⟩
    exact Registry.meant?_eq_none_iff.mp hm x hx hid

end Checkup.Config
