import Checkup.Proofs.Registration
import Mathlib.Data.List.Perm.Subperm

/-!
# Ancestors, exactly

How long a climb takes and what it comes to, in every registry that is built by registrations,
whatever parents its contexts declare:

* `Registry.climbWithin` — climbing with a number of parent steps at most; one more than there
  are contexts is enough (`ancestors_within`).
* `Registry.Ascent` — what following parents meets, read off the contexts that it meets. The
  outcome of a search for ancestors is that of an ascent (`ancestors_eq_iff_ascent`).
* `Registry.ancestors_exact` — when there are ancestors, and which failure there is otherwise.
-/

namespace Checkup.Registry

variable {r : Registry} {c : Context} {met : List Context} {next : Option String}

/-! ## Steps -/

/-- Climbing with so many parent steps at most. There is no answer if it takes more. -/
def climbWithin (r : Registry) : Nat → List String → Option String →
    Option (Except ResolveError (List Context))
  | _, _, none => some (.ok [])
  | 0, _, some _ => none
  | steps + 1, seen, some name =>
    if name ∈ seen then some (.error (.cyclicContext name))
    else
      match r.get? name with
      | none => some (.error (.unknownContext name))
      | some c => (r.climbWithin steps (name :: seen) c.parent).map (·.map (c :: ·))

/-- Climbing takes no more steps than there are contexts left to meet, and one more. -/
theorem climbWithin_eq {steps : Nat} {seen : List String} {parent : Option String}
    (h : (r.fresh seen).length < steps) :
    r.climbWithin steps seen parent = some (r.climb seen parent) := by
  induction steps generalizing seen parent with
  | zero => exact absurd h (Nat.not_lt_zero _)
  | succ steps ih =>
    cases parent with
    | none => rw [climbWithin, climb_none]
    | some name =>
      rw [climbWithin]
      by_cases hseen : name ∈ seen
      · rw [if_pos hseen, climb_of_mem hseen]
      · rw [if_neg hseen]
        cases hget : r.get? name with
        | none => rw [climb_of_get?_eq_none hseen hget]
        | some c =>
          -- the step has left one context less to meet
          have hless := fresh_length_lt hget hseen
          rw [climb_of_get?_eq_some hseen hget]
          dsimp only
          rw [ih (by omega), Option.map_some]

/-- **Looking for ancestors ends** after one step more than there are contexts. -/
theorem ancestors_within (r : Registry) (c : Context) :
    r.climbWithin (r.size + 1) [c.name] c.parent = some (r.ancestors c) :=
  climbWithin_eq (Nat.lt_succ_of_le (List.length_filter_le _ _))

/-! ## Ascents -/

/-- Following parents from a context meets others, and comes to no name twice; then `next` is the
parent that the last one declares, if it declares one. -/
structure Ascent (r : Registry) (c : Context) (met : List Context) (next : Option String) :
    Prop where
  /-- each is found under the name that the one before declares as its parent -/
  chain : (c :: met).IsChain fun child parent =>
    child.parent = some parent.name ∧ r.get? parent.name = some parent
  /-- no two of them have one name, that of the first one included -/
  nodup : ((c :: met).map (·.name)).Nodup
  /-- what the last one declares -/
  ends : ((c :: met).getLast (List.cons_ne_nil c met)).parent = next

/-- A walk is a chain of contexts, and what the last of them declares. -/
theorem trail_iff : r.Trail c.parent met next ↔
    (c :: met).IsChain (fun child parent =>
      child.parent = some parent.name ∧ r.get? parent.name = some parent) ∧
      ((c :: met).getLast (List.cons_ne_nil c met)).parent = next := by
  induction met generalizing c with
  | nil =>
    refine ⟨fun h => ⟨.singleton c, h.eq_of_nil⟩, fun ⟨_, hends⟩ => ?_⟩
    rw [show c.parent = next from hends]
    exact .here
  | cons d rest ih =>
    rw [List.isChain_cons_cons, List.getLast_cons (List.cons_ne_nil d rest)]
    constructor
    · intro h
      obtain ⟨hparent, hget, htail⟩ := h.of_cons
      obtain ⟨hchain, hends⟩ := ih.mp htail
      exact ⟨⟨⟨hparent, hget⟩, hchain⟩, hends⟩
    · rintro ⟨⟨⟨hparent, hget⟩, hchain⟩, hends⟩
      rw [hparent]
      exact .up hget (ih.mpr ⟨hchain, hends⟩)

theorem ascent_iff : r.Ascent c met next ↔
    r.Trail c.parent met next ∧ ((c :: met).map (·.name)).Nodup := by
  rw [trail_iff]
  exact ⟨fun h => ⟨⟨h.chain, h.ends⟩, h.nodup⟩, fun h => ⟨h.1.1, h.2, h.1.2⟩⟩

/-- An ascent and its outcome are what the ancestors come to. -/
theorem ancestors_eq_iff_ascent {result : Except ResolveError (List Context)} :
    r.ancestors c = result ↔
      ∃ met next, r.Ascent c met next ∧ Outcome r [c.name] met next result := by
  simp only [ancestors_eq_iff, ascent_iff, and_assoc]

/-- Distinct registered contexts are no more than there are. -/
theorem Ascent.length_le (h : r.Ascent c met next) : met.length ≤ r.size := by
  have htrail := (ascent_iff.mp h).1
  have hnodup : met.Nodup := (List.nodup_cons.mp h.nodup).2.of_map
  exact (hnodup.subperm htrail.mem_contexts).length_le

/-! ## What a search for ancestors comes to -/

/-- A name is reported as a cycle just if an ascent comes to it again. -/
theorem ancestors_cyclic_iff {name : String} :
    r.ancestors c = .error (.cyclicContext name) ↔
      ∃ met, r.Ascent c met (some name) ∧ name ∈ (c :: met).map (·.name) := by
  rw [ancestors_eq_iff_ascent]
  simp only [List.map_cons, List.mem_cons]
  constructor
  · rintro ⟨met, next, hascent, hout⟩
    cases hout with
    | cycle hmem => exact ⟨met, hascent, hmem.imp_left List.mem_singleton.mp⟩
  · rintro ⟨met, hascent, hmem⟩
    exact ⟨met, some name, hascent, .cycle (hmem.imp_left List.mem_singleton.mpr)⟩

/-- A name is reported as unknown just if an ascent comes to it for the first time, and no
context has it. -/
theorem ancestors_unknown_iff {name : String} :
    r.ancestors c = .error (.unknownContext name) ↔
      ∃ met, r.Ascent c met (some name) ∧ name ∉ (c :: met).map (·.name) ∧ r.get? name = none := by
  rw [ancestors_eq_iff_ascent]
  simp only [List.map_cons, List.mem_cons, not_or]
  constructor
  · rintro ⟨met, next, hascent, hout⟩
    cases hout with
    | missing hself hmet hget =>
      exact ⟨met, hascent, ⟨fun h => hself (List.mem_singleton.mpr h), hmet⟩, hget⟩
  · rintro ⟨met, hascent, ⟨hself, hmet⟩, hget⟩
    exact ⟨met, some name, hascent, .missing (fun h => hself (List.mem_singleton.mp h)) hmet hget⟩

/-- **The ancestors of a context are exact**, in every registry that registrations build and for
every context, registered or not, whatever parents are declared.

* They are found, or found to be missing, after one parent step more than there are contexts.
* There are ancestors just if following parents comes to a context without one before any name
  comes twice, that of the context included. They are those contexts, nearest first.
* If a name comes twice before a parent is missing, the first such name is reported as a cycle.
* If a parent is missing first, its name is reported: no context has it, at most as an alias.
* There is no other failure. -/
theorem ancestors_exact (contexts : List Context) (c : Context) :
    let r := ofContexts contexts
    (r.climbWithin (r.size + 1) [c.name] c.parent = some (r.ancestors c) ∧
      ∀ met next, r.Ascent c met next → met.length ≤ r.size) ∧
    (∀ above, r.ancestors c = .ok above ↔ r.Ascent c above none) ∧
    (∀ name, r.ancestors c = .error (.cyclicContext name) ↔
      ∃ met, r.Ascent c met (some name) ∧ name ∈ (c :: met).map (·.name)) ∧
    (∀ name, r.ancestors c = .error (.unknownContext name) ↔
      ∃ met, r.Ascent c met (some name) ∧ name ∉ (c :: met).map (·.name) ∧
        name ∉ r.contexts.map (·.name)) ∧
    ∀ e, r.ancestors c = .error e →
      ∃ name, e = .cyclicContext name ∨ e = .unknownContext name := by
  intro r
  have hr : r.Indexed := indexed_ofContexts contexts
  refine ⟨⟨r.ancestors_within c, fun _ _ h => h.length_le⟩, fun above => ?_,
    fun _ => ancestors_cyclic_iff, fun name => ?_, fun e he => ?_⟩
  · rw [ancestors_eq_ok_iff, ascent_iff]
  · rw [ancestors_unknown_iff, hr.get?_eq_none_iff]
  · obtain ⟨met, next, -, hout⟩ := ancestors_eq_iff_ascent.mp he
    cases hout with
    | @cycle name _ => exact ⟨name, .inl rfl⟩
    | @missing name _ _ _ => exact ⟨name, .inr rfl⟩

/-- Two contexts, one above the other. -/
def twoLevels : List Context :=
  [{ name := "strict", aliases := ["s"], parent := some "standard" }, { name := "standard" }]

/-- Below both there are two ancestors. An alias as the parent is unknown, and a context that
has a name of theirs comes to itself. -/
theorem ancestors_exact_twoLevels :
    (ofContexts twoLevels).ancestors { name := "test", parent := some "strict" } =
      .ok twoLevels ∧
    (ofContexts twoLevels).ancestors { name := "test", parent := some "s" } =
      .error (.unknownContext "s") ∧
    (ofContexts twoLevels).ancestors { name := "standard", parent := some "strict" } =
      .error (.cyclicContext "standard") := by
  obtain ⟨-, hok, -, -, -⟩ :=
    ancestors_exact twoLevels { name := "test", parent := some "strict" }
  obtain ⟨-, -, -, hunknown, -⟩ := ancestors_exact twoLevels { name := "test", parent := some "s" }
  obtain ⟨-, -, hcyclic, -, -⟩ :=
    ancestors_exact twoLevels { name := "standard", parent := some "strict" }
  refine ⟨(hok _).mpr ⟨by decide, by decide, rfl⟩,
    (hunknown _).mpr ⟨[], ⟨by decide, by decide, rfl⟩, by decide, by decide⟩,
    (hcyclic _).mpr ⟨twoLevels.take 1, ⟨by decide, by decide, rfl⟩, by decide⟩⟩

end Checkup.Registry
