import Checkup.Distinct
import Checkup.Source

/-!
# Installing commands

Before a run, the commands that are not there may be installed, one after the
other. A failure is reported and stops nothing.

* `Install.planned` — the commands of some plans, each once.
* `Install.installMissing` — installs those that are not there.

The installer is a program of any monad; what it answers may depend on what it
has installed before.
-/

namespace Checkup

/-- Looks for commands and installs them. -/
structure Installer (m : Type → Type) where
  /-- whether a command is there -/
  isInstalled : String → m Bool
  /-- installs a command; the error is a reason for people -/
  install : String → m (Except String Unit)

/-- What became of a command. -/
inductive Install.Outcome where
  /-- it was there -/
  | already
  /-- it was installed -/
  | installed
  /-- it could not be installed -/
  | failed (reason : String)
  deriving DecidableEq, Repr

/-- What became of which command. -/
structure Install.Report where
  /-- the command -/
  command : String
  /-- what became of it -/
  outcome : Outcome
  deriving DecidableEq, Repr

namespace Install

/-- The commands of some plans, each once, in the order in which they are first planned. -/
def planned (plans : List SourcePlan) : List String :=
  distinct (plans.flatMap fun p => p.plan.commandNames)

/-- Installs a command unless it is there. -/
def installOne {m : Type → Type} [Monad m] (i : Installer m) (command : String) : m Report := do
  if ← i.isInstalled command then return ⟨command, .already⟩
  match ← i.install command with
  | .ok () => return ⟨command, .installed⟩
  | .error reason => return ⟨command, .failed reason⟩

/-- Installs the commands that are not there, one after the other. -/
def installMissing {m : Type → Type} [Monad m] (i : Installer m) (commands : List String) :
    m (List Report) :=
  commands.mapM (installOne i)

end Install

end Checkup
