import Checkup.Context
import Checkup.OrderedMap

/-!
# Commands

A command is an external tool with arguments. Contexts select it by a flag and
may patch its arguments.

* `Patch.apply` — clears, then replaces, then appends.
* `Command.effectiveArgs` — folds the patches of the active contexts, in their
  order, over the base arguments.
-/

namespace Checkup

/-- A change that a context makes to the arguments of a command. -/
structure Patch where
  /-- forget the arguments so far -/
  clearArgs : Bool := false
  /-- put these in the place of the arguments so far -/
  args : Option (List String) := none
  /-- put these after the arguments so far -/
  addArgs : Option (List String) := none
  deriving DecidableEq, Repr, Inhabited

/-- Clears, then replaces, then appends. -/
def Patch.apply (p : Patch) (working : List String) : List String :=
  let cleared := if p.clearArgs then [] else working
  p.args.getD cleared ++ p.addArgs.getD []

/-- An external tool that checks a source. -/
structure Command where
  /-- the program to run -/
  name : String
  /-- a description for the user -/
  help : String := ""
  /-- the arguments without any patch -/
  baseArgs : List String := []
  /-- for which contexts the command says that it does or does not belong -/
  membership : OrderedMap Bool := ∅
  /-- what contexts change in the arguments -/
  patches : OrderedMap Patch := ∅
  deriving DecidableEq, Repr, Inhabited

namespace Command

/-- The patches of the active contexts, in the order of the contexts. -/
def activePatches (c : Command) (active : List Context) : List Patch :=
  active.filterMap fun context => c.patches.get? context.name

/-- The arguments under the active contexts. -/
def effectiveArgs (c : Command) (active : List Context) : List String :=
  (c.activePatches active).foldl (fun working p => p.apply working) c.baseArgs

/-- Whether the command says that it belongs to the context; silence is a no. -/
def isSelectedBy (c : Command) (context : Context) : Bool :=
  (c.membership.get? context.name).getD false

end Command

end Checkup
