/-!
# Plans

A plan is the ordered list of commands to run, with their arguments settled.

* `Plan.Entry` — one command of a plan.
* `Filter` — allow and deny lists; a denied command never runs.
-/

namespace Checkup

/-- One command to run. -/
structure Plan.Entry where
  /-- the program -/
  command : String
  /-- its arguments -/
  args : List String
  /-- the active contexts that selected it -/
  selectedBy : List String
  deriving DecidableEq, Repr, Inhabited

/-- The commands to run, in catalog order. -/
structure Plan where
  /-- the names of the active contexts, in the order in which they patch arguments -/
  activeContexts : List String := []
  /-- the commands to run -/
  entries : List Plan.Entry := []
  deriving DecidableEq, Repr, Inhabited

namespace Plan

/-- The entry of a command. -/
def get? (plan : Plan) (command : String) : Option Entry :=
  plan.entries.find? fun e => e.command = command

/-- The names of the commands to run. -/
def commandNames (plan : Plan) : List String := plan.entries.map (·.command)

/-- The number of commands to run. -/
def size (plan : Plan) : Nat := plan.entries.length

/-- Whether no command is to run. -/
def isEmpty (plan : Plan) : Bool := plan.entries.isEmpty

end Plan

/-- Which commands may run. -/
structure Filter where
  /-- if not empty, only these may run -/
  allow : List String := []
  /-- these may not run -/
  deny : List String := []
  deriving DecidableEq, Repr, Inhabited

namespace Filter

/-- Whether a command may run. Denying wins; an empty allow list allows all. -/
def permits (f : Filter) (command : String) : Bool :=
  !f.deny.contains command && (f.allow.isEmpty || f.allow.contains command)

/-- Both lists of `f`, extended by those of `g`. -/
def combine (f g : Filter) : Filter :=
  ⟨f.allow ++ g.allow, f.deny ++ g.deny⟩

end Filter

end Checkup
