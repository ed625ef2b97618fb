import Checkup.Command
import Mathlib.Algebra.GroupWithZero.Nat
import Mathlib.Data.List.Induction

/-!
# Arguments after patches

What a command is run with, without applying its patches one by one. A patch that drops or
replaces the arguments so far resets them; of all patches only the last one that does so counts,
and those that come after it:

* `Patch.Resets`, `Patch.added` — whether a patch resets the arguments, and what it puts after
  them.
* `Patch.apply_of_not_resets`, `Patch.apply_of_resets` — what one patch does.
* `Patch.applyAll_of_not_resets`, `Patch.applyAll_of_last_reset` — what a run of patches does.
* `Command.last_reset_decides` — the arguments of a command under any contexts.
-/

namespace Checkup

namespace Patch

variable {p last : Patch} {rules before after : List Patch}

/-- Whether a patch forgets the arguments so far: it drops them, or puts others in their place. -/
def Resets (p : Patch) : Prop := p.clearArgs = true ∨ p.args.isSome = true

instance : DecidablePred Resets := fun _ => inferInstanceAs (Decidable (_ ∨ _))

/-- What a patch puts after the arguments. -/
def added (p : Patch) : List String := p.addArgs.getD []

/-! ## One patch -/

/-- A patch that does not reset the arguments keeps them. -/
theorem apply_of_not_resets (h : ¬ p.Resets) (working : List String) :
    p.apply working = working ++ p.added := by
  obtain ⟨hclear, hargs⟩ := not_or.mp h
  have hnone : p.args = none := by simpa using hargs
  simp [apply, added, hclear, hnone]

/-- A patch that resets the arguments does not hang on them. -/
theorem apply_of_resets (h : p.Resets) (working : List String) :
    p.apply working = p.args.getD [] ++ p.added := by
  rcases h with hclear | hargs
  · simp [apply, added, hclear]
  · obtain ⟨args, hargs⟩ := Option.isSome_iff_exists.mp hargs
    simp [apply, added, hargs]

/-! ## Runs of patches -/

/-- Applies patches in their order. -/
def applyAll (rules : List Patch) (working : List String) : List String :=
  rules.foldl (fun working p => p.apply working) working

theorem applyAll_append (before after : List Patch) (working : List String) :
    applyAll (before ++ after) working = applyAll after (applyAll before working) :=
  List.foldl_append

/-- Without a reset everything is kept, and all additions follow in their order. -/
theorem applyAll_of_not_resets (h : ∀ p ∈ rules, ¬ p.Resets) (working : List String) :
    applyAll rules working = working ++ rules.flatMap added := by
  induction rules generalizing working with
  | nil => exact (List.append_nil _).symm
  | cons p rest ih =>
    obtain ⟨hp, hrest⟩ := List.forall_mem_cons.mp h
    calc applyAll (p :: rest) working
        = applyAll rest (working ++ p.added) := by
          rw [← apply_of_not_resets hp working]
          rfl
      _ = working ++ (p :: rest).flatMap added := by
          rw [ih hrest, List.append_assoc, List.flatMap_cons]

/-- From the last reset on, what came before it does not matter. -/
theorem applyAll_of_last_reset (hlast : last.Resets) (hafter : ∀ p ∈ after, ¬ p.Resets)
    (before : List Patch) (working : List String) :
    applyAll (before ++ last :: after) working =
      last.args.getD [] ++ (last :: after).flatMap added := by
  calc applyAll (before ++ last :: after) working
      = applyAll after (last.apply (applyAll before working)) := applyAll_append ..
    _ = applyAll after (last.args.getD [] ++ last.added) := by rw [apply_of_resets hlast]
    _ = last.args.getD [] ++ (last :: after).flatMap added := by
        rw [applyAll_of_not_resets hafter, List.append_assoc, List.flatMap_cons]

/-- Patches with a reset among them have a last one. -/
theorem exists_last_reset (h : ∃ p ∈ rules, p.Resets) :
    ∃ before last after, rules = before ++ last :: after ∧ last.Resets ∧
      ∀ p ∈ after, ¬ p.Resets := by
  induction rules using List.reverseRecOn with
  | nil => simp at h
  | append_singleton rules p ih =>
    by_cases hp : p.Resets
    · exact ⟨rules, p, [], rfl, hp, nofun⟩
    · have hearlier : ∃ q ∈ rules, q.Resets := by
        obtain ⟨q, hq, hresets⟩ := h
        rcases List.mem_append.mp hq with hq | hq
        · exact ⟨q, hq, hresets⟩
        · exact absurd (List.mem_singleton.mp hq ▸ hresets) hp
      obtain ⟨before, last, after, rfl, hlast, hafter⟩ := ih hearlier
      refine ⟨before, last, after ++ [p], by simp, hlast, fun q hq => ?_⟩
      rcases List.mem_append.mp hq with hq | hq
      · exact hafter q hq
      · exact List.mem_singleton.mp hq ▸ hp

end Patch

namespace Command

/-- The arguments are what the patches of the active contexts make of the base arguments. -/
theorem effectiveArgs_eq (c : Command) (active : List Context) :
    c.effectiveArgs active = Patch.applyAll (c.activePatches active) c.baseArgs := rfl

/-- **The last reset decides the arguments**, whatever the command and the contexts.

* If no patch of the contexts resets the arguments, they are the base arguments with all
  additions after them, in the order of the contexts.
* Otherwise they are those that the last resetting patch puts in the place of others, with its
  additions and all later ones after them. So every command with the same patches from there on
  has the same arguments, whatever its base arguments and earlier patches; and each argument
  occurs as often as it was put there. -/
theorem last_reset_decides (c : Command) (active : List Context) :
    let rules := active.filterMap fun context => c.patches.get? context.name
    ((∀ p ∈ rules, ¬ p.Resets) →
      c.effectiveArgs active = c.baseArgs ++ rules.flatMap Patch.added) ∧
    ((∃ p ∈ rules, p.Resets) →
      ∃ before last after, rules = before ++ last :: after ∧ last.Resets ∧
        (∀ p ∈ after, ¬ p.Resets) ∧
        c.effectiveArgs active = last.args.getD [] ++ (last :: after).flatMap Patch.added ∧
        (∀ other others earlier, activePatches other others = earlier ++ last :: after →
          other.effectiveArgs others = c.effectiveArgs active) ∧
        ∀ arg, (c.effectiveArgs active).count arg = (last.args.getD []).count arg +
          ((last :: after).map fun p => p.added.count arg).sum) := by
  intro rules
  refine ⟨fun h => Patch.applyAll_of_not_resets h c.baseArgs, fun h => ?_⟩
  obtain ⟨before, last, after, hrules, hlast, hafter⟩ := Patch.exists_last_reset h
  have hargs : ∀ (other : Command) (others : List Context) (earlier : List Patch),
      other.activePatches others = earlier ++ last :: after →
      other.effectiveArgs others = last.args.getD [] ++ (last :: after).flatMap Patch.added := by
    intro other others earlier hpatches
    rw [effectiveArgs_eq, hpatches, Patch.applyAll_of_last_reset hlast hafter]
  have hown := hargs c active before hrules
  refine ⟨before, last, after, hrules, hlast, hafter, hown, ?_, fun arg => ?_⟩
  · intro other others earlier hpatches
    rw [hargs other others earlier hpatches, hown]
  · rw [hown, List.count_append, List.count_flatMap]
    rfl

/-- A command that is patched by additions, and by one patch that drops what came before. -/
def scanner : Command where
  name := "bandit"
  baseArgs := ["-q"]
  patches := .ofList [("one", { addArgs := some ["-v"] }),
    ("two", { clearArgs := true, addArgs := some ["-z"] }), ("three", { addArgs := some ["-z"] })]

/-- Contexts that only add to its arguments. -/
def additions : List Context := [{ name := "one" }, { name := "three" }]

/-- Contexts of which the second one resets its arguments. -/
def stages : List Context := [{ name := "one" }, { name := "two" }, { name := "three" }]

theorem last_reset_decides_scanner :
    (∀ p ∈ scanner.activePatches additions, ¬ p.Resets) ∧
    scanner.effectiveArgs additions = ["-q", "-v", "-z"] ∧
    (∃ p ∈ scanner.activePatches stages, p.Resets) ∧
    ∃ before last after, scanner.activePatches stages = before ++ last :: after ∧ last.Resets ∧
      (∀ p ∈ after, ¬ p.Resets) ∧
      scanner.effectiveArgs stages = last.args.getD [] ++ (last :: after).flatMap Patch.added := by
  have hkeeps : ∀ p ∈ scanner.activePatches additions, ¬ p.Resets := by decide +kernel
  have hresets : ∃ p ∈ scanner.activePatches stages, p.Resets := by decide +kernel
  obtain ⟨before, last, after, hrules, hlast, hafter, hargs, -, -⟩ :=
    (last_reset_decides scanner stages).2 hresets
  exact ⟨hkeeps, (last_reset_decides scanner additions).1 hkeeps, hresets, before, last, after,
    hrules, hlast, hafter, hargs⟩

end Command

end Checkup
