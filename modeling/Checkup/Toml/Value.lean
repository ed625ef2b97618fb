import Checkup.Toml.DateTime

/-!
# TOML values

A table is a list of entries in document order; a reader never puts a key in
twice.
-/

namespace Checkup.Toml

/-- A value of a document. -/
inductive Value where
  /-- text -/
  | string (text : String)
  /-- a whole number of 64 bits -/
  | integer (n : Int)
  /-- a floating point number -/
  | float (x : Float)
  /-- a truth value -/
  | boolean (b : Bool)
  /-- a date or time -/
  | dateTime (d : DateTime)
  /-- a list of values -/
  | array (items : List Value)
  /-- values by key, in document order -/
  | table (entries : List (String × Value))
  deriving Inhabited

/-- The entries of a table, in document order. -/
abbrev Entries := List (String × Value)

end Checkup.Toml
