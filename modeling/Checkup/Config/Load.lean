import Checkup.Config.Read
import Checkup.FileTree.Access
import Checkup.Setup

/-!
# Loading configurations

The configuration of a workspace is in its configuration file, or in another
file that is named. Without a file the built-in configuration counts alone.
-/

namespace Checkup.Config

/-- The configuration of a file over the built-in one. The file has to be there. -/
def ofFile (files : FileTree) (path : String) : Except Error Config :=
  if !files.hasPath path then .error (.config (.fileNotFound path))
  else
    match files.readText? path with
    | none => .error .fileSystem
    | some text => (ofWorkspace path text).mapError .config

/-- The configuration of a workspace, or of the file that is named. -/
def load (files : FileTree) (workspace : String) (path : Option String) : Except Error Config :=
  match path with
  | some path => ofFile files path
  | none =>
    let path := Setup.configPath workspace
    if files.hasPath path then ofFile files path else defaults.mapError .config

end Checkup.Config
