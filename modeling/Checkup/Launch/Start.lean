import Checkup.Launch.Shell

/-!
# Starting programs

A few programs are installed; any other name leads to no program, and files of
a workspace are not programs.

* `Launch.isInstalled` — whether a name is that of a program.
* `Launch.start` — runs a program in a directory.
-/

namespace Checkup.Launch

/-- What an installed program does with its arguments. -/
def program? (files : FileTree) (directory name : String) : Option (List String → Finished) :=
  if name = "sh" then some (Shell.start files directory)
  else
    (Utility.find? ⟨files, directory⟩ name).map fun utility arguments =>
      let e := utility arguments
      ⟨.code (Int32.ofNat e.status), e.out, e.err⟩

/-- The name of a program in one of the directories of programs. -/
def inProgramDirectory? (path : String) : Option String :=
  match Path.components path with
  | ["/", "bin", name] => some name
  | ["/", "usr", "bin", name] => some name
  | _ => none

/-- Whether a name is that of a program. -/
def isInstalled (name : String) : Bool :=
  (program? .empty "" ((inProgramDirectory? name).getD name)).isSome

/-- Why a path that is no installed program does not start. -/
def refusal (files : FileTree) (path : String) : StartError :=
  match files.get? path with
  | some _ => .denied
  | none => .notFound

/-- Runs a program in a directory. -/
def start (files : FileTree) (directory name : String) (arguments : List String) :
    Except StartError Finished :=
  if (name :: arguments).any fun a => a.toList.contains '\x00' then .error .badCommandLine
  else
    match files.get? directory with
    | none => .error .notFound
    | some node =>
      if !node.isDirectory then .error .notADirectory
      else
        match program? files directory ((inProgramDirectory? name).getD name) with
        | some program => .ok (program arguments)
        | none =>
          if name.toList.contains '/' then .error (refusal files (Path.join directory name))
          else .error .notFound

end Checkup.Launch
