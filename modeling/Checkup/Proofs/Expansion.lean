import Checkup.Proofs.Selection

/-!
# Expanding what is asked for

The contexts that are asked for are expanded along their lines of ancestors, and each context
counts where it comes first. What that comes to, whatever the contexts:

* `distinctBy_append`, `distinctBy_flatMap_congr`, `distinctBy_flatMap_distinctBy` — first
  occurrences along lists one after the other.
* `Planner.line`, `Planner.HasLine` — a context with its ancestors, and whether they are found.
* `Planner.expand_eq_ok_iff` — when contexts are expanded, and to what.
* `Planner.expand_expand` — what is expanded already stays as it is.
* `Planner.roots_names` — contexts are asked for by their names.
-/

namespace Checkup

/-! ## First occurrences along lists -/

section Distinct

universe u v w

variable {α : Type u} {κ : Type v} {β : Type w} [DecidableEq κ] {key : α → κ}
  {xs xs' ys ys' : List α}

theorem mem_map_distinctBy {k : κ} : k ∈ (distinctBy key xs).map key ↔ k ∈ xs.map key := by
  simp only [List.mem_map]
  constructor
  · rintro ⟨x, hx, rfl⟩
    exact ⟨x, mem_of_mem_distinctBy hx, rfl⟩
  · rintro ⟨x, hx, rfl⟩
    exact exists_mem_distinctBy hx

/-- Of two lists, the second keeps what is new in it. -/
theorem distinctBy_append (xs ys : List α) :
    distinctBy key (xs ++ ys) =
      distinctBy key xs ++ (distinctBy key ys).filter fun y => key y ∉ xs.map key := by
  induction xs with
  | nil => simp [distinctBy]
  | cons x xs ih =>
    rw [List.cons_append, distinctBy, distinctBy, ih, List.filter_append, List.filter_filter,
      List.cons_append]
    simp only [List.map_cons, List.mem_cons, not_or, Bool.decide_and]

/-- Nothing is new in a list whose keys came before. -/
theorem distinctBy_append_of_mem (h : ∀ y ∈ ys, key y ∈ xs.map key) :
    distinctBy key (xs ++ ys) = distinctBy key xs := by
  rw [distinctBy_append, List.filter_eq_nil_iff.mpr, List.append_nil]
  intro y hy
  simpa using h y (mem_of_mem_distinctBy hy)

/-- A last element is kept if its key is new. -/
theorem distinctBy_concat (xs : List α) (x : α) :
    distinctBy key (xs ++ [x]) =
      if key x ∈ xs.map key then distinctBy key xs else distinctBy key xs ++ [x] := by
  rw [distinctBy_append]
  by_cases hx : key x ∈ xs.map key
  · rw [if_pos hx, List.filter_eq_nil_iff.mpr, List.append_nil]
    intro y hy
    rw [List.mem_singleton.mp (mem_of_mem_distinctBy hy)]
    simpa using hx
  · rw [if_neg hx, List.filter_eq_self.mpr]
    · rfl
    · intro y hy
      rw [List.mem_singleton.mp (mem_of_mem_distinctBy hy)]
      exact decide_eq_true hx

/-- Lists with the same first occurrences can take each other's places. -/
theorem distinctBy_append_congr (hx : distinctBy key xs = distinctBy key xs')
    (hy : distinctBy key ys = distinctBy key ys') :
    distinctBy key (xs ++ ys) = distinctBy key (xs' ++ ys') := by
  rw [distinctBy_append, distinctBy_append, hx, hy]
  refine congrArg _ (List.filter_congr fun y _ => ?_)
  have hkeys : key y ∈ xs.map key ↔ key y ∈ xs'.map key := by
    rw [← mem_map_distinctBy, hx, mem_map_distinctBy]
  rw [decide_eq_decide, hkeys]

theorem distinctBy_flatMap_congr {f g : β → List α} {l : List β}
    (h : ∀ x ∈ l, distinctBy key (f x) = distinctBy key (g x)) :
    distinctBy key (l.flatMap f) = distinctBy key (l.flatMap g) := by
  induction l with
  | nil => rfl
  | cons x rest ih =>
    obtain ⟨hx, hrest⟩ := List.forall_mem_cons.mp h
    rw [List.flatMap_cons, List.flatMap_cons]
    exact distinctBy_append_congr hx (ih hrest)

/-- What later occurrences are replaced by has come before, so they can be left out first. -/
theorem distinctBy_flatMap_distinctBy {f : α → List α}
    (h : ∀ x ∈ xs, ∀ y ∈ xs, key x = key y → f x = f y) :
    distinctBy key ((distinctBy key xs).flatMap f) = distinctBy key (xs.flatMap f) := by
  induction xs using List.reverseRecOn with
  | nil => rfl
  | append_singleton xs x ih =>
    have ih := ih fun y hy z hz =>
      h y (List.mem_append_left _ hy) z (List.mem_append_left _ hz)
    rw [distinctBy_concat, List.flatMap_append]
    split
    · -- the list of an earlier element of this key is the same
      rename_i hx
      obtain ⟨y, hy, hkey⟩ := List.mem_map.mp hx
      have hxy : f y = f x := h y (by simp [hy]) x (by simp) hkey
      have hcame : ∀ z ∈ [x].flatMap f, key z ∈ (xs.flatMap f).map key := by
        intro z hz
        rw [List.flatMap_singleton, ← hxy] at hz
        exact List.mem_map_of_mem (List.mem_flatMap.mpr ⟨y, hy, hz⟩)
      rw [ih, distinctBy_append_of_mem hcame]
    · rw [List.flatMap_append]
      exact distinctBy_append_congr ih rfl

end Distinct

namespace Planner

variable {p : Planner} {requested : List String} {roots active : List Context} {c d : Context}

/-! ## Lines -/

/-- A context, followed by its ancestors as far as they are found. -/
def line (p : Planner) (c : Context) : List Context :=
  c :: (p.registry.ancestors c).toOption.getD []

/-- Whether the ancestors of a context are found. -/
def HasLine (p : Planner) (c : Context) : Prop := p.lineage c = .ok (p.line c)

theorem hasLine_iff : p.HasLine c ↔ ∃ above, p.registry.ancestors c = .ok above := by
  rw [HasLine, lineage, line]
  cases p.registry.ancestors c with
  | ok above => exact iff_of_true rfl ⟨above, rfl⟩
  | error e => simp [Except.map]

theorem line_of_ancestors {above : List Context} (h : p.registry.ancestors c = .ok above) :
    p.line c = c :: above := by
  rw [line, h]
  rfl

theorem mem_line_self (p : Planner) (c : Context) : c ∈ p.line c := List.mem_cons_self

/-- The line of an ancestor is the end of the line that it is on. -/
theorem HasLine.of_mem (h : p.HasLine c) (hd : d ∈ p.line c) :
    p.HasLine d ∧ p.line d <:+ p.line c := by
  obtain ⟨above, habove⟩ := hasLine_iff.mp h
  rw [line_of_ancestors habove] at hd ⊢
  rcases List.mem_cons.mp hd with rfl | hd
  · rw [line_of_ancestors habove]
    exact ⟨h, List.suffix_rfl⟩
  · -- the walk goes on from the ancestor to the same root
    obtain ⟨htrail, hnodup⟩ := Registry.ancestors_eq_ok_iff.mp habove
    obtain ⟨before, after, rfl⟩ := List.append_of_mem hd
    have hsuffix : d :: after <:+ c :: (before ++ d :: after) := ⟨c :: before, rfl⟩
    have hafter : p.registry.ancestors d = .ok after :=
      Registry.ancestors_eq_ok_iff.mpr
        ⟨htrail.cut.2, hnodup.sublist (hsuffix.sublist.map _)⟩
    rw [line_of_ancestors hafter]
    exact ⟨hasLine_iff.mpr ⟨after, hafter⟩, hsuffix⟩

/-- The contexts on a line are registered, if its first one is. -/
theorem HasLine.mem_contexts (h : p.HasLine c) (hc : c ∈ p.registry.contexts) (hd : d ∈ p.line c) :
    d ∈ p.registry.contexts := by
  obtain ⟨above, habove⟩ := hasLine_iff.mp h
  rw [line_of_ancestors habove] at hd
  exact (Registry.isLine_of_ancestors habove).mem_contexts hc d hd

/-- What is on the lines of registered contexts is registered. -/
theorem mem_contexts_of_lines (hlines : ∀ c ∈ roots, p.HasLine c)
    (hroots : ∀ c ∈ roots, c ∈ p.registry.contexts) :
    ∀ d ∈ roots.flatMap p.line, d ∈ p.registry.contexts := by
  intro d hd
  obtain ⟨root, hroot, hd⟩ := List.mem_flatMap.mp hd
  exact (hlines root hroot).mem_contexts (hroots root hroot) hd

/-! ## Expanding contexts -/

/-- Contexts with their ancestors, each once. -/
def expand (p : Planner) (roots : List Context) : Except ResolveError (List Context) :=
  (roots.mapM p.lineage).map fun lines => distinctBy (·.name) lines.flatten

/-- The active contexts are those that are asked for, expanded. -/
theorem activeContexts_eq (p : Planner) (requested : List String) :
    p.activeContexts requested = p.roots requested >>= p.expand := by
  rw [activeContexts]
  cases p.roots requested with
  | error e => rfl
  | ok roots => exact (map_eq_bind ..).symm

/-- **Contexts are expanded** if the ancestors of each are found: to the first occurrences along
their lines. -/
theorem expand_eq_ok_iff :
    p.expand roots = .ok active ↔
      (∀ c ∈ roots, p.HasLine c) ∧ distinctBy (·.name) (roots.flatMap p.line) = active := by
  rw [List.flatMap_def]
  constructor
  · intro h
    rw [expand, map_eq_bind] at h
    obtain ⟨lines, hlines, h⟩ := bind_eq_ok h
    have hall : ∀ c ∈ roots, p.HasLine c := by
      intro c hc
      obtain ⟨line, hline⟩ := exists_of_mapM_eq_ok hlines hc
      rw [hasLine_iff]
      cases habove : p.registry.ancestors c with
      | ok above => exact ⟨above, rfl⟩
      | error e => simp [lineage, habove, Except.map] at hline
    obtain rfl : roots.map p.line = lines :=
      Except.ok.inj ((mapM_eq_ok_map_iff.mpr hall).symm.trans hlines)
    exact ⟨hall, Except.ok.inj h⟩
  · rintro ⟨hall, rfl⟩
    rw [expand, mapM_eq_ok_map_iff.mpr hall]
    rfl

/-- Registered contexts are told by their names, so they are expanded to all that is on their
lines. -/
theorem mem_expand_iff (hr : p.registry.Indexed) (hroots : ∀ c ∈ roots, c ∈ p.registry.contexts)
    (h : p.expand roots = .ok active) : c ∈ active ↔ ∃ root ∈ roots, c ∈ p.line root := by
  obtain ⟨hlines, rfl⟩ := expand_eq_ok_iff.mp h
  rw [← List.mem_flatMap]
  refine ⟨mem_of_mem_distinctBy, fun hc => ?_⟩
  have hregistered := mem_contexts_of_lines hlines hroots
  obtain ⟨d, hd, hname⟩ :
      ∃ d ∈ distinctBy (·.name) (roots.flatMap p.line), d.name = c.name := exists_mem_distinctBy hc
  have hd' := hregistered d (mem_of_mem_distinctBy hd)
  rwa [← List.inj_on_of_nodup_map hr.nodup hd' (hregistered c hc) hname]

/-- What is expanded already stays as it is: its lines are ends of the lines that it is made of,
and so bring nothing new. -/
theorem expand_expand (hr : p.registry.Indexed) (hroots : ∀ c ∈ roots, c ∈ p.registry.contexts)
    (h : p.expand roots = .ok active) : p.expand active = .ok active := by
  obtain ⟨hlines, hactive⟩ := expand_eq_ok_iff.mp h
  have hregistered := mem_contexts_of_lines hlines hroots
  refine expand_eq_ok_iff.mpr ⟨fun c hc => ?_, ?_⟩
  · obtain ⟨root, hroot, hc⟩ := (mem_expand_iff hr hroots h).mp hc
    exact ((hlines root hroot).of_mem hc).1
  have hsame : ∀ c ∈ roots, distinctBy (·.name) ((p.line c).flatMap p.line) =
      distinctBy (·.name) (p.line c) := by
    intro c hc
    rw [show (p.line c).flatMap p.line = p.line c ++ (p.line c).tail.flatMap p.line from rfl]
    refine distinctBy_append_of_mem fun d hd => List.mem_map_of_mem ?_
    obtain ⟨e, he, hd⟩ := List.mem_flatMap.mp hd
    exact ((hlines c hc).of_mem (List.mem_of_mem_tail he)).2.mem hd
  calc distinctBy (·.name) (active.flatMap p.line)
      = distinctBy (·.name) ((distinctBy (·.name) (roots.flatMap p.line)).flatMap p.line) := by
        rw [hactive]
    _ = distinctBy (·.name) ((roots.flatMap p.line).flatMap p.line) :=
        distinctBy_flatMap_distinctBy fun c hc d hd hname =>
          congrArg p.line
            (List.inj_on_of_nodup_map hr.nodup (hregistered c hc) (hregistered d hd) hname)
    _ = distinctBy (·.name) (roots.flatMap fun c => (p.line c).flatMap p.line) := by
        rw [List.flatMap_assoc]
    _ = distinctBy (·.name) (roots.flatMap p.line) := distinctBy_flatMap_congr hsame
    _ = active := hactive

/-! ## Asking by names -/

/-- Contexts that are registered are asked for by their names. -/
theorem roots_names (hr : p.registry.Indexed) (hne : roots ≠ [])
    (hroots : ∀ c ∈ roots, c ∈ p.registry.contexts) :
    p.roots (roots.map (·.name)) = .ok roots := by
  have hresolve : ∀ c ∈ roots, (p.registry.resolve ∘ (·.name)) c = .ok c := fun c hc =>
    hr.resolve_name (hroots c hc)
  rw [Planner.roots, if_neg (by simpa using hne), List.mapM_map]
  exact (mapM_eq_ok_map_iff (g := id).mpr hresolve).trans (by rw [List.map_id])

end Planner

end Checkup
