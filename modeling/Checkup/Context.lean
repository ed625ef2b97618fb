/-!
# Contexts

A context is a named profile of checks: it selects commands and may patch their
arguments. Contexts form a forest through parent names.
-/

namespace Checkup

/-- A named profile of checks. -/
structure Context where
  /-- the name by which commands and children refer to the context -/
  name : String
  /-- further identifiers by which a user may ask for it -/
  aliases : List String := []
  /-- a description for the user -/
  help : String := ""
  /-- active whenever no context is asked for -/
  isDefault : Bool := false
  /-- the name of the parent context -/
  parent : Option String := none
  deriving DecidableEq, Repr, Inhabited

/-- Whether `identifier` is the name or an alias of the context. -/
def Context.answersTo (c : Context) (identifier : String) : Bool :=
  c.name = identifier || c.aliases.contains identifier

end Checkup
