import Checkup.Context.Registry

/-!
# Ancestor chains

`Registry.ancestors` follows parent names up to a context without a parent. The
walk ends because every step meets a registered name it has not met before, and
there are only finitely many (`fresh_length_lt`).

A name that was met before is reported as a cycle even if no context has it;
only then is a missing parent reported.
-/

namespace Checkup.Registry

/-- The registered contexts whose names are not among `seen`. -/
def fresh (r : Registry) (seen : List String) : List Context :=
  r.contexts.filter fun c => c.name ∉ seen

/-- Meeting a new registered name leaves fewer fresh contexts. -/
theorem fresh_length_lt {r : Registry} {seen : List String} {name : String} {c : Context}
    (hget : r.get? name = some c) (hnew : name ∉ seen) :
    (r.fresh (name :: seen)).length < (r.fresh seen).length := by
  have hname : c.name = name := name_of_get? hget
  have hmem : c ∈ r.fresh seen :=
    List.mem_filter.mpr ⟨mem_of_get? hget, by simpa [hname] using hnew⟩
  have hsub : r.fresh (name :: seen) = (r.fresh seen).filter fun d => d.name ≠ name := by
    simp only [fresh, List.filter_filter, List.mem_cons, not_or, Bool.decide_and]
  rw [hsub]
  exact List.length_filter_lt_length_iff_exists.mpr ⟨c, hmem, by simp [hname]⟩

/-- The contexts above one whose parent is `parent`, nearest first; `seen` are
the names met on the way, which must not come again. -/
def climb (r : Registry) (seen : List String) (parent : Option String) :
    Except ResolveError (List Context) :=
  match parent with
  | none => .ok []
  | some name =>
    if _ : name ∈ seen then .error (.cyclicContext name)
    else
      match _ : r.get? name with
      | none => .error (.unknownContext name)
      | some c =>
        match r.climb (name :: seen) c.parent with
        | .ok above => .ok (c :: above)
        | .error e => .error e
termination_by (r.fresh seen).length
decreasing_by exact fresh_length_lt ‹_› ‹_›

/-- The parent chain of a context, nearest first and without the context itself. -/
def ancestors (r : Registry) (c : Context) : Except ResolveError (List Context) :=
  r.climb [c.name] c.parent

/-! ## Equations -/

theorem climb_none (r : Registry) (seen : List String) : r.climb seen none = .ok [] := by
  rw [climb]

theorem climb_of_mem {r : Registry} {seen : List String} {name : String} (h : name ∈ seen) :
    r.climb seen (some name) = .error (.cyclicContext name) := by
  rw [climb, dif_pos h]

theorem climb_of_get?_eq_none {r : Registry} {seen : List String} {name : String}
    (h : name ∉ seen) (hget : r.get? name = none) :
    r.climb seen (some name) = .error (.unknownContext name) := by
  rw [climb, dif_neg h]
  split
  · rfl
  · simp_all

theorem climb_of_get?_eq_some {r : Registry} {seen : List String} {name : String} {c : Context}
    (h : name ∉ seen) (hget : r.get? name = some c) :
    r.climb seen (some name) = (r.climb (name :: seen) c.parent).map (c :: ·) := by
  rw [climb, dif_neg h]
  split
  · simp_all
  · rename_i d hd
    obtain rfl : c = d := Option.some.inj (hget.symm.trans hd)
    cases r.climb (name :: seen) c.parent <;> rfl

end Checkup.Registry
