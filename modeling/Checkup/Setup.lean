import Checkup.Config.Render
import Checkup.Discovery
import Checkup.Error

/-!
# Setting up a workspace

Discovers the sources of a workspace and writes them to its configuration file.
Contexts and commands are left to the built-in configuration.
-/

namespace Checkup

/-- What was written. -/
structure Setup where
  /-- the path of the configuration file -/
  path : String
  /-- the sources that were found -/
  sources : Sources
  /-- whether a configuration file was replaced -/
  overwritten : Bool

namespace Setup

/-- The path of the configuration file of a workspace. -/
def configPath (workspace : String) : String := Path.join workspace "statue.toml"

/-- Writes the configuration file of a workspace. One that is there is replaced
only with `overwrite`. -/
def write (files : FileTree) (workspace : String) (overwrite : Bool) :
    Except Error (Setup × FileTree) := do
  let path := configPath workspace
  let isThere := files.hasPath path
  if isThere && !overwrite then .error (.config (.alreadyExists path))
  let some sources := Discovery.sources files workspace | .error .fileSystem
  let some files := files.write? path (Sources.render sources).toUTF8 | .error .fileSystem
  return (⟨path, sources, isThere⟩, files)

end Setup

end Checkup
