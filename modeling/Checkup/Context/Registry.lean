import Checkup.Context
import Checkup.Error
import Checkup.OrderedMap

/-!
# The context registry

Contexts in declaration order, with an index from identifiers to positions.

* `Registry.register` — adds a context, or replaces the one of the same name
  where it stands.
* `Registry.get?` finds by name alone, `Registry.resolve` by name or alias.

A name always wins over an alias. Of two contexts with one alias, the one
declared first keeps it.
-/

namespace Checkup

/-- The known contexts. -/
structure Registry where
  /-- in declaration order -/
  contexts : List Context := []
  /-- where an identifier leads: a position in `contexts` -/
  index : OrderedMap Nat := ∅
  deriving DecidableEq, Inhabited

namespace Registry

/-- The registry without contexts. -/
def empty : Registry := {}

/-! ## The index -/

/-- Lets the aliases of a context lead to `slot`, where they do not lead anywhere yet. -/
def claimAliases (index : OrderedMap Nat) (slot : Nat) (aliases : List String) : OrderedMap Nat :=
  aliases.foldl (fun index a => index.insertIfNew a slot) index

/-- The index of a list of contexts: all names first, then aliases in declaration order. -/
def indexOf (contexts : List Context) : OrderedMap Nat :=
  let names := contexts.zipIdx.foldl (fun index (c, slot) => index.insert c.name slot) ∅
  contexts.zipIdx.foldl (fun index (c, slot) => claimAliases index slot c.aliases) names

/-- The context an identifier leads to, with its position. -/
def find? (r : Registry) (identifier : String) : Option (Nat × Context) := do
  let slot ← r.index.get? identifier
  let c ← r.contexts[slot]?
  return (slot, c)

/-! ## Looking up -/

/-- The context of this name; an alias is not enough. -/
def get? (r : Registry) (name : String) : Option Context :=
  ((r.find? name).map Prod.snd).filter fun c => c.name = name

/-- The context that an identifier of the user means. -/
def resolve (r : Registry) (identifier : String) : Except ResolveError Context :=
  match r.find? identifier with
  | some (_, c) => .ok c
  | none => .error (.unknownContext identifier)

/-- The contexts that are active when none is asked for. -/
def defaults (r : Registry) : List Context := r.contexts.filter (·.isDefault)

/-- The number of contexts. -/
def size (r : Registry) : Nat := r.contexts.length

/-- Whether no context is known. -/
def isEmpty (r : Registry) : Bool := r.contexts.isEmpty

/-! ## Registering -/

/-- Adds a context. One of the same name is replaced where it stands, along
with its aliases. -/
def register (r : Registry) (c : Context) : Registry :=
  match (r.find? c.name).filter fun (_, old) => old.name = c.name with
  | some (slot, _) =>
    let contexts := r.contexts.set slot c
    ⟨contexts, indexOf contexts⟩
  | none =>
    let slot := r.contexts.length
    ⟨r.contexts ++ [c], claimAliases (r.index.insert c.name slot) slot c.aliases⟩

/-- Registers contexts in order. -/
def ofContexts (contexts : List Context) : Registry :=
  contexts.foldl register empty

/-! ## Small laws -/

/-- A context found by name has that name. -/
theorem name_of_get? {r : Registry} {name : String} {c : Context}
    (h : r.get? name = some c) : c.name = name := by
  have := (Option.filter_eq_some_iff.mp h).2
  simpa using this

/-- A context found by name is one of the known ones. -/
theorem mem_of_get? {r : Registry} {name : String} {c : Context}
    (h : r.get? name = some c) : c ∈ r.contexts := by
  have h' := (Option.filter_eq_some_iff.mp h).1
  obtain ⟨⟨slot, d⟩, hf, rfl⟩ := Option.map_eq_some_iff.mp h'
  obtain ⟨s, -, hs⟩ := Option.bind_eq_some_iff.mp hf
  obtain ⟨e, he, hes⟩ := Option.bind_eq_some_iff.mp hs
  cases hes
  exact List.mem_of_getElem? he

end Registry

end Checkup
