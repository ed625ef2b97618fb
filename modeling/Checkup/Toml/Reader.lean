import Checkup.Toml.Number
import Checkup.Toml.Quoted
import Checkup.Toml.Table

/-!
# Reading TOML

`Toml.read` gives the entries of a document, or nothing if the text is not
well-formed.

* `readValue` — one value; arrays and inline tables nest less than eighty deep.
* `readSections` — the lines of a document, grouped by headers.

Loops count down from the length of the text, which they cannot use up: every
step, or every second one, consumes a character.
-/

namespace Checkup.Toml

/-! ## Blanks and comments -/

/-- The text behind the blanks of a line. -/
def skipSpaces (cs : List Char) : List Char := cs.dropWhile isSpace

/-- The text behind a comment's characters, from the hash mark on. -/
def skipComment (cs : List Char) : List Char := cs.dropWhile isPlain

/-- The text behind the end of a line: blanks, a comment and a line end, or the
end of the text. -/
def endLine (cs : List Char) : Option (List Char) :=
  let cs := skipSpaces cs
  let cs := if cs.head? = some '#' then skipComment cs else cs
  if cs.isEmpty then some [] else afterLineEnd? cs

/-- The text behind blanks, comments and line ends. -/
def skipLines : Nat → List Char → List Char
  | 0, cs => cs
  | n + 1, cs =>
    let cs := skipSpaces cs
    match cs with
    | [] => []
    | _ :: _ =>
      let behind := if cs.head? = some '#' then skipComment cs else cs
      match afterLineEnd? behind with
      | some rest => skipLines n rest
      | none => cs

/-! ## Keys -/

/-- A single key at the front. -/
def readSimpleKey : List Char → Option (String × List Char)
  | '"' :: rest => (readBasic rest).map fun (text, rest) => (String.ofList text, rest)
  | '\'' :: rest => (readLiteral rest).map fun (text, rest) => (String.ofList text, rest)
  | cs =>
    let bare := cs.takeWhile isBareKey
    if bare.isEmpty then none else some (String.ofList bare, cs.dropWhile isBareKey)

/-- How many keys a dotted key may have, and how deep values may nest: fewer than this. -/
def depthLimit : Nat := 80

/-- A dotted key at the front, with blanks around its parts. -/
def readDotted : Nat → List Char → Option (List String × List Char)
  | 0, _ => none
  | n + 1, cs => do
    let (key, rest) ← readSimpleKey (skipSpaces cs)
    match skipSpaces rest with
    | '.' :: rest => do
      let (path, rest) ← readDotted n rest
      return (key :: path, rest)
    | rest => return ([key], rest)

/-- A dotted key at the front that is not too long. -/
def readKey (cs : List Char) : Option (List String × List Char) :=
  (readDotted cs.length cs).filter fun (path, _) => path.length < depthLimit

/-! ## Values -/

/-- A character of a number, a date or a word. -/
def isLexeme (c : Char) : Bool := c.isAlphanum || c = '_' || c = '+' || c = '-' || c = '.' || c = ':'

/-- Whether a blank and a time follow a date. -/
def continuesWithTime : List Char → Bool
  | ' ' :: c :: _ => c.isDigit
  | _ => false

/-- The lexeme of a number, a date or a word at the front. A date may have its
time behind a blank. -/
def splitLexeme (cs : List Char) : List Char × List Char :=
  let lexeme := cs.takeWhile isLexeme
  let rest := cs.dropWhile isLexeme
  match readDateTime lexeme with
  | some (.date _) =>
    if continuesWithTime rest then
      let behind := rest.drop 1
      (lexeme ++ ' ' :: behind.takeWhile isLexeme, behind.dropWhile isLexeme)
    else (lexeme, rest)
  | _ => (lexeme, rest)

/-- The value of a lexeme. -/
def scalarOf (lexeme : List Char) : Option Value :=
  if lexeme = "true".toList then some (.boolean true)
  else if lexeme = "false".toList then some (.boolean false)
  else
    match readDateTime lexeme with
    | some d => some (.dateTime d)
    | none =>
      match readFloat lexeme with
      | some x => some (.float x)
      | none => (readInteger lexeme).map .integer

/-- A number, a date or a truth value at the front. -/
def readScalar (cs : List Char) : Option (Value × List Char) :=
  let (lexeme, rest) := splitLexeme cs
  (scalarOf lexeme).map fun v => (v, rest)

mutual

/-- A value at the front. `depth` is how deep it may still nest. -/
def readValue (fuel : Nat) (depth : Nat) (cs : List Char) : Option (Value × List Char) :=
  match fuel with
  | 0 => none
  | n + 1 =>
    match cs with
    | [] => none
    | '[' :: rest =>
      match depth with
      | 0 => none
      | d + 1 => do
        let (items, rest) ← readItems n d rest
        return (.array items, rest)
    | '{' :: rest =>
      match depth with
      | 0 => none
      | d + 1 => do
        let rest := skipSpaces rest
        let (pairs, rest) ← if rest.head? = some '}' then some ([], rest.drop 1)
          else readPairs n d rest
        let table ← Table.addPairs [] pairs
        return (.table (Table.finishEntries table), rest)
    | c :: rest =>
      if c = '"' ∨ c = '\'' then
        (readString (c :: rest)).map fun (text, rest) => (.string (String.ofList text), rest)
      else readScalar (c :: rest)

/-- The items of an array up to its closing bracket; a comma may follow the last. -/
def readItems (fuel : Nat) (depth : Nat) (cs : List Char) : Option (List Value × List Char) :=
  match fuel with
  | 0 => none
  | n + 1 => do
    let cs := skipLines cs.length cs
    if cs.head? = some ']' then return ([], cs.drop 1)
    let (item, rest) ← readValue n depth cs
    let rest := skipLines rest.length rest
    match rest with
    | ',' :: rest => do
      let (items, rest) ← readItems n depth rest
      return (item :: items, rest)
    | ']' :: rest => return ([item], rest)
    | _ => none

/-- The pairs of an inline table up to its closing brace; at least one. -/
def readPairs (fuel : Nat) (depth : Nat) (cs : List Char) :
    Option (List (List String × Value) × List Char) :=
  match fuel with
  | 0 => none
  | n + 1 => do
    let (path, rest) ← readKey cs
    let rest ← skipChar '=' rest
    let (value, rest) ← readValue n depth (skipSpaces rest)
    match skipSpaces rest with
    | ',' :: rest => do
      let (pairs, rest) ← readPairs n depth rest
      return ((path, value) :: pairs, rest)
    | '}' :: rest => return ([(path, value)], rest)
    | _ => none

end

/-! ## Lines -/

/-- A line of a document. -/
inductive Line where
  /-- a key and its value -/
  | pair (path : List String) (value : Value)
  /-- a header -/
  | header (kind : Table.Header) (path : List String)

/-- A header at the front, from its first bracket on. -/
def readHeader (cs : List Char) : Option (Line × List Char) :=
  match cs with
  | '[' :: '[' :: rest => do
    let (path, rest) ← readKey rest
    let rest ← skipChar ']' rest
    let rest ← skipChar ']' rest
    return (.header .element path, rest)
  | '[' :: rest => do
    let (path, rest) ← readKey rest
    let rest ← skipChar ']' rest
    return (.header .table path, rest)
  | _ => none

/-- A key and its value at the front. -/
def readPair (cs : List Char) : Option (Line × List Char) := do
  let (path, rest) ← readKey cs
  let rest ← skipChar '=' rest
  let (value, rest) ← readValue (2 * rest.length + 2) (depthLimit - 1) (skipSpaces rest)
  return (.pair path value, rest)

/-- The lines of a document. -/
def readLines : Nat → List Char → Option (List Line)
  | 0, _ => none
  | n + 1, cs => do
    let cs := skipLines cs.length cs
    if cs.isEmpty then return []
    if cs.head? = some '#' && (skipComment cs).isEmpty then return []
    let (line, rest) ← if cs.head? = some '[' then readHeader cs else readPair cs
    let rest ← endLine rest
    return line :: (← readLines n rest)

/-! ## Documents -/

/-- The pairs up to the next header. -/
def leadingPairs : List Line → List (List String × Value)
  | .pair path value :: rest => (path, value) :: leadingPairs rest
  | _ => []

/-- Adds the sections of a document, each with the pairs below its header. -/
def addSections (t : Table) : List Line → Option Table
  | [] => some t
  | .pair .. :: rest => addSections t rest
  | .header kind path :: rest => do
    addSections (← Table.addSection kind (leadingPairs rest) t path) rest

/-- A text without the mark of its byte order at the front. -/
def withoutMark : List Char → List Char
  | c :: rest => if c = '\ufeff' then rest else c :: rest
  | [] => []

/-- The entries of a document. -/
def read (text : String) : Option Entries := do
  let cs := withoutMark text.toList
  let lines ← readLines (cs.length + 1) cs
  let top ← Table.addPairs [] (leadingPairs lines)
  let table ← addSections top lines
  return Table.finishEntries table

end Checkup.Toml
