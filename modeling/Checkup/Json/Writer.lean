import Checkup.Json.Value
import Checkup.Text.Hex

/-!
# Writing JSON

One member or item a line, indented by two blanks a level. Empty arrays and
objects stay on their line. Only quotes, backslashes and control characters
below the blank are escaped.
-/

namespace Checkup.Json

/-- A character as it stands in a string. -/
def escapeChar (c : Char) : List Char :=
  if c = '"' then ['\\', '"']
  else if c = '\\' then ['\\', '\\']
  else if c = '\x08' then ['\\', 'b']
  else if c = '\x0c' then ['\\', 'f']
  else if c = '\n' then ['\\', 'n']
  else if c = '\r' then ['\\', 'r']
  else if c = '\t' then ['\\', 't']
  else if c.toNat < 0x20 then
    ['\\', 'u', '0', '0', Text.hexDigit (c.toNat / 16), Text.hexDigit (c.toNat % 16)]
  else [c]

/-- A string in quotes. -/
def quoted (s : String) : List Char := '"' :: s.toList.flatMap escapeChar ++ ['"']

/-- A new line at a depth of indentation. -/
def newLine (depth : Nat) : List Char := '\n' :: List.replicate (2 * depth) ' '

mutual

/-- A value that starts at a depth of indentation. -/
def writeChars (depth : Nat) : Value → List Char
  | .null => "null".toList
  | .boolean b => (if b then "true" else "false").toList
  | .integer n => (toString n).toList
  | .decimal => ['0']
  | .string text => quoted (text.getD "")
  | .array [] => ['[', ']']
  | .array (item :: rest) =>
    '[' :: newLine (depth + 1) ++ writeChars (depth + 1) item ++ writeItems (depth + 1) rest ++
      newLine depth ++ [']']
  | .object [] => ['{', '}']
  | .object ((name, v) :: rest) =>
    '{' :: newLine (depth + 1) ++ quoted (name.getD "") ++ [':', ' '] ++
      writeChars (depth + 1) v ++ writeMembers (depth + 1) rest ++ newLine depth ++ ['}']

/-- The items after the first one. -/
def writeItems (depth : Nat) : List Value → List Char
  | [] => []
  | item :: rest => ',' :: newLine depth ++ writeChars depth item ++ writeItems depth rest

/-- The members after the first one. -/
def writeMembers (depth : Nat) : List (Option String × Value) → List Char
  | [] => []
  | (name, v) :: rest =>
    ',' :: newLine depth ++ quoted (name.getD "") ++ [':', ' '] ++ writeChars depth v ++
      writeMembers depth rest

end

/-- The text of a value. -/
def write (v : Value) : String := String.ofList (writeChars 0 v)

end Checkup.Json
