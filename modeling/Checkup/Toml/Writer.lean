import Checkup.Toml.Char

/-!
# Writing TOML

Keys and strings in the plainest form that can hold them.

* `writeKey` — bare, else quoted on one line.
* `writeString` — on one line, else over several lines; as it is, else escaped.
* `writeStrings` — an array of strings.
-/

namespace Checkup.Toml

/-! ## What a text holds -/

/-- Whether a character can only be written as an escape: a control character
other than a tab or a line feed. -/
def needsCode (c : Char) : Bool := (c.toNat ≤ 0x1F || c.toNat = 0x7F) && c ≠ '\t' && c ≠ '\n'

/-- The longest run of a character. `run` is the length of the one that the text
continues. -/
def longestRun (quote : Char) (run : Nat) : List Char → Nat
  | [] => run
  | c :: rest =>
    if c = quote then longestRun quote (run + 1) rest else max run (longestRun quote 0 rest)

/-! ## Escapes -/

/-- A control character by its number, in upper case. -/
def codeEscape (c : Char) : List Char :=
  ['\\', 'u', '0', '0', (Text.hexDigit (c.toNat / 16)).toUpper,
    (Text.hexDigit (c.toNat % 16)).toUpper]

/-- A character as it stands in a basic string on one line. -/
def escapeChar (c : Char) : List Char :=
  if c = '\x08' then ['\\', 'b']
  else if c = '\t' then ['\\', 't']
  else if c = '\n' then ['\\', 'n']
  else if c = '\x0c' then ['\\', 'f']
  else if c = '\r' then ['\\', 'r']
  else if c = '"' then ['\\', '"']
  else if c = '\\' then ['\\', '\\']
  else if needsCode c then codeEscape c
  else [c]

/-- The inside of a basic string over several lines. Line feeds stand for
themselves; of the quotes in a row every third is escaped, and `run` of them
stand before the text. -/
def escapeMulti (run : Nat) : List Char → List Char
  | [] => []
  | c :: rest =>
    if c = '"' then
      if run = 2 then '\\' :: '"' :: escapeMulti 0 rest else '"' :: escapeMulti (run + 1) rest
    else if c = '\n' then '\n' :: escapeMulti 0 rest
    else escapeChar c ++ escapeMulti 0 rest

/-! ## Keys and strings -/

/-- The forms of a quoted text. -/
inductive Style where
  /-- with escapes, on one line -/
  | basic
  /-- without escapes, on one line -/
  | literal
  /-- with escapes, over several lines -/
  | multiBasic
  /-- without escapes, over several lines -/
  | multiLiteral
  deriving DecidableEq, Repr

/-- A text in quotes. A form over several lines starts with a line feed if the
text has one. -/
def quoted (style : Style) (text : List Char) : List Char :=
  let opening := if text.contains '\n' then ['\n'] else []
  match style with
  | .basic => '"' :: text.flatMap escapeChar ++ ['"']
  | .literal => '\'' :: text ++ ['\'']
  | .multiBasic => ['"', '"', '"'] ++ opening ++ escapeMulti 0 text ++ ['"', '"', '"']
  | .multiLiteral => ['\'', '\'', '\''] ++ opening ++ text ++ ['\'', '\'', '\'']

/-- The form of a string value: the first that holds it as it is, else escapes. -/
def styleOf (text : List Char) : Style :=
  let code := text.any needsCode
  let newline := text.contains '\n'
  let backslash := text.contains '\\'
  let doubles := longestRun '"' 0 text
  let singles := longestRun '\'' 0 text
  if !code && !backslash && doubles = 0 && !newline then .basic
  else if !code && singles = 0 && !newline then .literal
  else if !code && !backslash && doubles ≤ 2 then .multiBasic
  else if !code && singles ≤ 2 then .multiLiteral
  else if newline then .multiBasic
  else .basic

/-- The form of a quoted key, which has to stay on one line. -/
def keyStyleOf (text : List Char) : Style :=
  let code := text.any needsCode || text.contains '\n'
  if !code && !text.contains '\\' && !text.contains '"' then .basic
  else if !code && !text.contains '\'' then .literal
  else .basic

/-- A key of a table. -/
def writeKey (key : String) : String :=
  let text := key.toList
  if text ≠ [] && text.all isBareKey then key else String.ofList (quoted (keyStyleOf text) text)

/-- A string value. -/
def writeString (s : String) : String := String.ofList (quoted (styleOf s.toList) s.toList)

/-- An array of string values. -/
def writeStrings (items : List String) : String :=
  "[" ++ ", ".intercalate (items.map writeString) ++ "]"

end Checkup.Toml
