import Checkup.Command
import Checkup.Error

/-!
# The command catalog

Commands in declaration order, with pairwise distinct names. Plans list
commands in this order.
-/

namespace Checkup

/-- The known commands, in declaration order. -/
structure Catalog where
  /-- in declaration order -/
  commands : List Command := []
  deriving DecidableEq, Inhabited

namespace Catalog

/-- Puts a command where one of its name stands, or at the end. -/
def place (c : Command) : List Command → List Command
  | [] => [c]
  | old :: rest => if old.name = c.name then c :: rest else old :: place c rest

/-- Adds a command. One of the same name is replaced where it stands. -/
def register (catalog : Catalog) (c : Command) : Catalog :=
  ⟨place c catalog.commands⟩

/-- Registers commands in order. -/
def ofCommands (commands : List Command) : Catalog :=
  commands.foldl register {}

/-- The command of this name. -/
def get? (catalog : Catalog) (name : String) : Option Command :=
  catalog.commands.find? fun c => c.name = name

/-- The command of this name; there has to be one. -/
def get (catalog : Catalog) (name : String) : Except ResolveError Command :=
  match catalog.get? name with
  | some c => .ok c
  | none => .error (.unknownCommand name)

/-- The number of commands. -/
def size (catalog : Catalog) : Nat := catalog.commands.length

/-- Whether no command is known. -/
def isEmpty (catalog : Catalog) : Bool := catalog.commands.isEmpty

theorem map_name_place (c : Command) (l : List Command) :
    (place c l).map (·.name) =
      if c.name ∈ l.map (·.name) then l.map (·.name) else l.map (·.name) ++ [c.name] := by
  induction l with
  | nil => simp [place]
  | cons old rest ih =>
    by_cases h : old.name = c.name
    · simp [place, h]
    · have h' : c.name ≠ old.name := fun e => h e.symm
      by_cases hm : c.name ∈ rest.map (·.name)
      · simp only [place, h, if_false, List.map_cons, ih, hm, if_true, List.mem_cons, or_true]
      · simp only [place, h, if_false, List.map_cons, ih, hm, List.mem_cons, h', or_self,
          List.cons_append]

end Catalog

end Checkup
