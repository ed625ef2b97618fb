import Checkup.Config.Defaults
import Checkup.Config.Merge
import Checkup.Config.Settings
import Checkup.Config.Tables
import Checkup.Toml.Reader

/-!
# Reading configurations

A document is read twice: strictly for its tables, then leniently for the
general and logging settings, which replace those of the first reading.

* `Config.ofText` — a document on its own.
* `Config.defaults` — the built-in document.
* `Config.ofWorkspace` — a workspace document over the built-in one.
-/

namespace Checkup.Config

/-- The configuration of a document; `origin` names it in errors. -/
def ofText (origin text : String) : Except ConfigError Config := do
  let some document := Toml.read text | .error (.malformed origin)
  let some tables := ofTables document | .error (.malformed origin)
  let some (general, logging) := settingsOfDocument document | .error .settings
  return { tables with general, logging }

/-- The built-in configuration. -/
def defaults : Except ConfigError Config := ofText "built-in defaults" defaultDocument

/-- A workspace document over the built-in one. -/
def ofWorkspace (origin text : String) : Except ConfigError Config := do
  let workspace ← ofText origin text
  merge (← defaults) workspace

end Checkup.Config
