import Checkup.Context.Registry
import Checkup.Report.Style
import Checkup.Report.Table

/-!
# Reports on contexts
-/

namespace Checkup.Report

/-- All contexts in a table. -/
def contextList (r : Registry) : String :=
  if r.isEmpty then "No contexts configured."
  else
    let row (c : Context) := [c.name, listing c.aliases, c.parent.getD "-",
      if c.isDefault then "yes" else "", c.help]
    let table : Table := ⟨["Context", "Aliases", "Parent", "Default", "Help"], r.contexts.map row⟩
    heading "Contexts" ++ "\n\n" ++ table.render

/-- One context, with the ancestors that it inherits from, nearest first. -/
def contextDetail (c : Context) (ancestors : List Context) : String :=
  heading c.name ++ "\n" ++
    "  Aliases: " ++ listing c.aliases ++ "\n" ++
    "  Parent chain: " ++ " -> ".intercalate ((c :: ancestors).map (·.name)) ++ "\n" ++
    "  Default: " ++ (if c.isDefault then "yes" else "no") ++ "\n" ++
    "  Help: " ++ c.help

end Checkup.Report
