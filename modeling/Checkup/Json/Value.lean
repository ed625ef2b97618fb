/-!
# JSON values

What a JSON text says. Objects keep the order of their members, and may repeat
a name. A string that has a surrogate without its partner is no text; so it is
well-formed, but has no value.
-/

namespace Checkup.Json

/-- A value. -/
inductive Value where
  /-- the null value -/
  | null
  /-- a truth value -/
  | boolean (b : Bool)
  /-- a number without fraction and exponent -/
  | integer (n : Int)
  /-- any other number, the negative zero too; only that it is there matters -/
  | decimal
  /-- a string, if it is a text -/
  | string (text : Option String)
  /-- a list of values -/
  | array (items : List Value)
  /-- named values, in their order -/
  | object (members : List (Option String × Value))
  deriving Inhabited

/-- A string with a text. -/
def Value.text (s : String) : Value := .string (some s)

/-- An array of strings. -/
def Value.texts (items : List String) : Value := .array (items.map .text)

/-- An object with proper names. -/
def Value.record (members : List (String × Value)) : Value :=
  .object (members.map fun (name, v) => (some name, v))

end Checkup.Json
