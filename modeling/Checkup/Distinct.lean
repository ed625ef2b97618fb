/-!
# First occurrences

`distinctBy key xs` keeps, of the elements with one key, the first.
-/

namespace Checkup

universe u v

variable {α : Type u} {κ : Type v} [DecidableEq κ]

/-- The elements whose key no earlier element has, in order. -/
def distinctBy (key : α → κ) : List α → List α
  | [] => []
  | x :: xs => x :: (distinctBy key xs).filter fun y => key y ≠ key x

/-- The elements in the order of their first occurrences, each once. -/
def distinct (xs : List κ) : List κ := distinctBy id xs

theorem mem_of_mem_distinctBy {key : α → κ} {x : α} {xs : List α}
    (h : x ∈ distinctBy key xs) : x ∈ xs := by
  induction xs with
  | nil => exact h
  | cons y ys ih =>
    rcases List.mem_cons.mp h with h | h
    · exact h ▸ List.mem_cons_self
    · exact List.mem_cons_of_mem _ (ih (List.mem_filter.mp h).1)

/-- No two kept elements share a key. -/
theorem pairwise_distinctBy (key : α → κ) (xs : List α) :
    (distinctBy key xs).Pairwise fun x y => key x ≠ key y := by
  induction xs with
  | nil => exact List.Pairwise.nil
  | cons x xs ih =>
    refine List.pairwise_cons.mpr ⟨fun y hy => ?_, ih.filter _⟩
    have := (List.mem_filter.mp hy).2
    simp only [ne_eq, decide_eq_true_eq] at this
    exact fun e => this e.symm

/-- Every key of the list is the key of a kept element. -/
theorem exists_mem_distinctBy {key : α → κ} {x : α} {xs : List α} (h : x ∈ xs) :
    ∃ y ∈ distinctBy key xs, key y = key x := by
  induction xs with
  | nil => cases h
  | cons z zs ih =>
    by_cases hk : key z = key x
    · exact ⟨z, List.mem_cons_self, hk⟩
    · rcases List.mem_cons.mp h with h | h
      · exact absurd (h ▸ rfl) hk
      · obtain ⟨y, hy, hyx⟩ := ih h
        refine ⟨y, List.mem_cons_of_mem _ (List.mem_filter.mpr ⟨hy, ?_⟩), hyx⟩
        simpa [hyx] using fun e => hk e.symm

end Checkup
