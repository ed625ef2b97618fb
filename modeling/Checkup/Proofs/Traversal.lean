import Mathlib.Data.List.Forall2

/-!
# All-or-nothing traversals

A traversal with `Except` gives one result for every element, or the error of the
first element that has none. With `Option`, a list whose items are read back is read back
itself (`mapM_map_eq_some`).
-/

namespace Checkup

universe u

variable {α : Type u} {β ε : Type u} {f : α → Except ε β}

/-- Mapping is a step that cannot fail. -/
theorem map_eq_bind (x : Except ε α) (g : α → β) : x.map g = x >>= fun z => pure (g z) := by
  cases x <;> rfl

/-- Inversion for a sequence of two steps. -/
theorem bind_eq_ok {γ : Type u} {x : Except ε γ} {g : γ → Except ε β} {y : β}
    (h : (x >>= g) = .ok y) : ∃ z, x = .ok z ∧ g z = .ok y := by
  cases x with
  | error e => cases h
  | ok z => exact ⟨z, rfl, h⟩

/-- The results of a traversal are those of its elements. -/
theorem forall₂_of_mapM {l : List α} {ys : List β} (h : l.mapM f = .ok ys) :
    List.Forall₂ (fun x y => f x = .ok y) l ys := by
  induction l generalizing ys with
  | nil =>
    cases h
    exact .nil
  | cons x rest ih =>
    rw [List.mapM_cons] at h
    obtain ⟨y, hy, h⟩ := bind_eq_ok h
    obtain ⟨zs, hzs, h⟩ := bind_eq_ok h
    cases h
    exact .cons hy (ih hzs)

/-- A traversal has just the results of its elements, in their order. -/
theorem mapM_eq_ok_iff {l : List α} {ys : List β} :
    l.mapM f = .ok ys ↔ List.Forall₂ (fun x y => f x = .ok y) l ys := by
  refine ⟨forall₂_of_mapM, fun h => ?_⟩
  induction h with
  | nil => rfl
  | cons hxy _ ih =>
    rw [List.mapM_cons, hxy, ih]
    rfl

/-- Steps that agree on the elements give the same traversal. -/
theorem mapM_congr {m : Type u → Type u} [Monad m] [LawfulMonad m] {f g : α → m β} {l : List α}
    (h : ∀ x ∈ l, f x = g x) : l.mapM f = l.mapM g := by
  induction l with
  | nil => rfl
  | cons x rest ih =>
    rw [List.mapM_cons, List.mapM_cons, h x List.mem_cons_self,
      ih fun y hy => h y (List.mem_cons_of_mem _ hy)]

/-- Steps that agree along two lists give the same traversal. -/
theorem mapM_eq_of_forall₂ {l l' : List α} (h : List.Forall₂ (fun x y => f x = f y) l l') :
    l.mapM f = l'.mapM f := by
  induction h with
  | nil => rfl
  | cons hxy _ ih => rw [List.mapM_cons, List.mapM_cons, hxy, ih]

/-- A traversal has the results that `g` gives just if they are those of its elements. -/
theorem mapM_eq_ok_map_iff {g : α → β} {l : List α} :
    l.mapM f = .ok (l.map g) ↔ ∀ x ∈ l, f x = .ok (g x) := by
  constructor
  · intro h
    have hall := forall₂_of_mapM h
    rwa [List.forall₂_map_right_iff, List.forall₂_same] at hall
  · exact fun h => (mapM_congr h).trans List.mapM_pure

/-- What relates two lists relates every element of the second to one of the first. -/
theorem exists_of_mem_forall₂ {γ δ : Type*} {R : γ → δ → Prop} {l : List γ} {ys : List δ} {y : δ}
    (h : List.Forall₂ R l ys) (hy : y ∈ ys) : ∃ x ∈ l, R x y := by
  induction h with
  | nil => cases hy
  | cons hxy _ ih =>
    rcases List.mem_cons.mp hy with rfl | hy
    · exact ⟨_, List.mem_cons_self, hxy⟩
    · obtain ⟨x, hx, hxy⟩ := ih hy
      exact ⟨x, List.mem_cons_of_mem _ hx, hxy⟩

/-- If a traversal has results, so has each element. -/
theorem exists_of_mapM_eq_ok {l : List α} {ys : List β} {x : α} (h : l.mapM f = .ok ys)
    (hx : x ∈ l) : ∃ y, f x = .ok y := by
  obtain ⟨y, -, hxy⟩ := exists_of_mem_forall₂ (forall₂_of_mapM h).flip hx
  exact ⟨y, hxy⟩

/-- Every result is that of an element. -/
theorem exists_of_mem_mapM {l : List α} {ys : List β} {y : β} (h : l.mapM f = .ok ys)
    (hy : y ∈ ys) : ∃ x ∈ l, f x = .ok y :=
  exists_of_mem_forall₂ (R := fun x y => f x = .ok y) (forall₂_of_mapM h) hy

/-- What every result shows of its element, the results show of the elements. -/
theorem map_eq_of_mapM {γ : Type u} {g : β → γ} {k : α → γ} {l : List α} {ys : List β}
    (h : l.mapM f = .ok ys) (hshow : ∀ x y, f x = .ok y → g y = k x) : ys.map g = l.map k := by
  have hall := forall₂_of_mapM h
  clear h
  induction hall with
  | nil => rfl
  | cons hxy _ ih => rw [List.map_cons, List.map_cons, hshow _ _ hxy, ih]

/-- The results for two lists in a row are those for each. -/
theorem mapM_append_eq_ok {l l' : List α} {ys : List β} (h : (l ++ l').mapM f = .ok ys) :
    ∃ zs zs', l.mapM f = .ok zs ∧ l'.mapM f = .ok zs' ∧ ys = zs ++ zs' := by
  rw [List.mapM_append] at h
  obtain ⟨zs, hzs, h⟩ := bind_eq_ok h
  obtain ⟨zs', hzs', h⟩ := bind_eq_ok h
  exact ⟨zs, zs', hzs, hzs', (Except.ok.inj h).symm⟩

/-- If every element has a result, so has the traversal. -/
theorem exists_mapM_eq_ok {l : List α} (h : ∀ x ∈ l, ∃ y, f x = .ok y) :
    ∃ ys, l.mapM f = .ok ys := by
  induction l with
  | nil => exact ⟨[], rfl⟩
  | cons x rest ih =>
    obtain ⟨y, hy⟩ := h x List.mem_cons_self
    obtain ⟨ys, hys⟩ := ih fun z hz => h z (List.mem_cons_of_mem _ hz)
    refine ⟨y :: ys, ?_⟩
    rw [List.mapM_cons, hy, hys]
    rfl

/-- The first element without a result decides. -/
theorem mapM_eq_error {before after : List α} {x : α} {e : ε}
    (h : ∀ z ∈ before, ∃ y, f z = .ok y) (hx : f x = .error e) :
    (before ++ x :: after).mapM f = .error e := by
  induction before with
  | nil =>
    rw [List.nil_append, List.mapM_cons, hx]
    rfl
  | cons z rest ih =>
    obtain ⟨y, hy⟩ := h z List.mem_cons_self
    have hrest := ih fun w hw => h w (List.mem_cons_of_mem _ hw)
    rw [List.cons_append, List.mapM_cons, hy, hrest]
    rfl

/-- A traversal has its results, or an element is the first without one. -/
theorem mapM_eq_ok_or_error (f : α → Except ε β) (l : List α) :
    (∃ ys, l.mapM f = .ok ys) ∨
      ∃ before x after e, l = before ++ x :: after ∧ (∀ z ∈ before, ∃ y, f z = .ok y) ∧
        f x = .error e := by
  induction l with
  | nil => exact .inl ⟨[], rfl⟩
  | cons x rest ih =>
    -- the first one without a result is this one, or one of the rest
    cases hx : f x with
    | error e => exact .inr ⟨[], x, rest, e, rfl, nofun, hx⟩
    | ok y =>
      rcases ih with ⟨ys, hys⟩ | ⟨before, z, after, e, rfl, hbefore, hz⟩
      · refine .inl ⟨y :: ys, ?_⟩
        rw [List.mapM_cons, hx, hys]
        rfl
      · exact .inr ⟨x :: before, z, after, e, rfl, List.forall_mem_cons.mpr ⟨⟨y, hx⟩, hbefore⟩, hz⟩

/-- A traversal fails with the error of the first element without a result. -/
theorem mapM_eq_error_iff {l : List α} {e : ε} : l.mapM f = .error e ↔
    ∃ before x after, l = before ++ x :: after ∧ (∀ z ∈ before, ∃ y, f z = .ok y) ∧
      f x = .error e := by
  constructor
  · intro h
    rcases mapM_eq_ok_or_error f l with ⟨ys, hys⟩ | ⟨before, x, after, e', rfl, hbefore, hx⟩
    · cases hys.symm.trans h
    · obtain rfl := Except.error.inj ((mapM_eq_error hbefore hx).symm.trans h)
      exact ⟨before, x, after, rfl, hbefore, hx⟩
  · rintro ⟨before, x, after, rfl, hbefore, hx⟩
    exact mapM_eq_error hbefore hx

/-- With `Option`, too, a traversal has just the results of its elements. -/
theorem mapM_eq_some_iff {α β : Type} {f : α → Option β} {l : List α} {ys : List β} :
    l.mapM f = some ys ↔ List.Forall₂ (fun x y => f x = some y) l ys := by
  constructor
  · intro h
    induction l generalizing ys with
    | nil =>
      cases h
      exact .nil
    | cons x rest ih =>
      rw [List.mapM_cons] at h
      obtain ⟨y, hy, h⟩ := Option.bind_eq_some_iff.mp h
      obtain ⟨zs, hzs, h⟩ := Option.bind_eq_some_iff.mp h
      cases h
      exact .cons hy (ih hzs)
  · intro h
    induction h with
    | nil => rfl
    | cons hxy _ ih =>
      rw [List.mapM_cons, hxy, ih]
      rfl

/-- A list is read back if each of its items is. -/
theorem mapM_map_eq_some {α β : Type} {write : α → β} {read : β → Option α}
    (h : ∀ x, read (write x) = some x) (l : List α) : (l.map write).mapM read = some l := by
  have hread : read ∘ write = fun x => pure x := funext h
  rw [List.mapM_map, hread]
  exact List.mapM_pure.trans (congrArg some (List.map_id l))

end Checkup
