import Checkup.Source
import Checkup.Toml.Writer

/-!
# Writing configurations

The document that a new workspace starts with: its sources, and nothing else.
-/

namespace Checkup.Sources

/-- One source as a table of its own. -/
def renderSource (path : String) (s : SourceSettings) : String :=
  "[sources." ++ Toml.writeKey path ++ "]\n" ++
  "contexts = " ++ Toml.writeStrings s.contexts ++ "\n" ++
  "allow_list = " ++ Toml.writeStrings s.allow ++ "\n" ++
  "deny_list = " ++ Toml.writeStrings s.deny ++ "\n"

/-- The document of the sources, with an empty line between them. -/
def render (sources : Sources) : String :=
  if sources.isEmpty then "[sources]\n"
  else "\n".intercalate (sources.entries.map fun (path, s) => renderSource path s)

end Checkup.Sources
