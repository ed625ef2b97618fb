import Checkup.Json.Value
import Checkup.Text.Digits
import Checkup.Text.Hex

/-!
# Reading JSON

`Json.read` gives the value of a text, or nothing if it is not well-formed.

Loops count down from the length of the text, which they cannot use up: every
step, or every second one, consumes a character.
-/

namespace Checkup.Json

/-- Whether a character may stand between tokens. -/
def isSpace (c : Char) : Bool := c = ' ' || c = '\t' || c = '\n' || c = '\r'

/-- The text behind the blanks at the front. -/
def skipSpaces (cs : List Char) : List Char := cs.dropWhile isSpace

/-! ## Strings -/

/-- Whether a code unit is the first half of a pair. -/
def isHighSurrogate (unit : Nat) : Bool := 0xD800 ≤ unit && unit < 0xDC00

/-- Whether a code unit is the second half of a pair. -/
def isLowSurrogate (unit : Nat) : Bool := 0xDC00 ≤ unit && unit < 0xE000

/-- The character of a pair of halves. -/
def ofPair (high low : Nat) : Char :=
  Char.ofNat (0x10000 + (high - 0xD800) * 0x400 + (low - 0xDC00))

/-- The character that follows a backslash in a short escape. -/
def shortEscape? (c : Char) : Option Char :=
  if c = '"' ∨ c = '\\' ∨ c = '/' then some c
  else if c = 'b' then some '\x08'
  else if c = 'f' then some '\x0c'
  else if c = 'n' then some '\n'
  else if c = 'r' then some '\r'
  else if c = 't' then some '\t'
  else none

/-- The code points of a string up to its closing quote; a half of a pair that
is written as an escape stands for itself. -/
def readPoints : List Char → Option (List Nat × List Char)
  | [] => none
  | '"' :: rest => some ([], rest)
  | '\\' :: 'u' :: a :: b :: c :: d :: rest => do
    let point ← Text.hexNumber? [a, b, c, d]
    let (points, rest) ← readPoints rest
    return (point :: points, rest)
  | '\\' :: c :: rest => do
    let x ← shortEscape? c
    let (points, rest) ← readPoints rest
    return (x.toNat :: points, rest)
  | c :: rest => do
    guard (c ≠ '\\' ∧ 0x20 ≤ c.toNat)
    let (points, rest) ← readPoints rest
    return (c.toNat :: points, rest)

/-- The text of code points: halves become characters in pairs, and a half
without its partner makes it no text. -/
def textOfPoints : List Nat → Option (List Char)
  | [] => some []
  | [point] =>
    if isHighSurrogate point || isLowSurrogate point then none else some [Char.ofNat point]
  | point :: next :: rest =>
    if isHighSurrogate point then
      if isLowSurrogate next then (textOfPoints rest).map (ofPair point next :: ·) else none
    else if isLowSurrogate point then none
    else (textOfPoints (next :: rest)).map (Char.ofNat point :: ·)

/-- A string behind its opening quote. -/
def readString (cs : List Char) : Option (Option String × List Char) :=
  (readPoints cs).map fun (points, rest) => ((textOfPoints points).map String.ofList, rest)

/-! ## Numbers -/

/-- One or more digits at the front. -/
def readDigits (cs : List Char) : Option (List Char × List Char) :=
  let digits := cs.takeWhile Char.isDigit
  if digits.isEmpty then none else some (digits, cs.dropWhile Char.isDigit)

/-- The digits of a whole number at the front, without leading zeros. -/
def readWhole (cs : List Char) : Option (List Char × List Char) := do
  let (digits, rest) ← readDigits cs
  guard (digits.head? ≠ some '0' ∨ digits.length = 1)
  return (digits, rest)

/-- A fraction at the front, or none: whether there is one, and what follows. -/
def skipFraction : List Char → Option (Bool × List Char)
  | '.' :: rest => (readDigits rest).map fun (_, rest) => (true, rest)
  | cs => some (false, cs)

/-- The text behind a sign. -/
def skipSign : List Char → List Char
  | '+' :: rest => rest
  | '-' :: rest => rest
  | cs => cs

/-- An exponent at the front, or none: whether there is one, and what follows. -/
def skipExponent : List Char → Option (Bool × List Char)
  | 'e' :: rest => (readDigits (skipSign rest)).map fun (_, rest) => (true, rest)
  | 'E' :: rest => (readDigits (skipSign rest)).map fun (_, rest) => (true, rest)
  | cs => some (false, cs)

/-- A number at the front. -/
def readNumber (cs : List Char) : Option (Value × List Char) := do
  let negative := cs.head? = some '-'
  let (digits, rest) ← readWhole (if negative then cs.drop 1 else cs)
  let (hasFraction, rest) ← skipFraction rest
  let (hasExponent, rest) ← skipExponent rest
  let n : Int := Text.decimalNumber digits
  let isWhole := !hasFraction && !hasExponent && !(negative && n = 0)
  return (if isWhole then .integer (if negative then -n else n) else .decimal, rest)

/-! ## Values -/

mutual

/-- A value at the front. -/
def readValue (fuel : Nat) (cs : List Char) : Option (Value × List Char) :=
  match fuel with
  | 0 => none
  | n + 1 =>
    match cs with
    | 'n' :: 'u' :: 'l' :: 'l' :: rest => some (.null, rest)
    | 't' :: 'r' :: 'u' :: 'e' :: rest => some (.boolean true, rest)
    | 'f' :: 'a' :: 'l' :: 's' :: 'e' :: rest => some (.boolean false, rest)
    | '"' :: rest => (readString rest).map fun (text, rest) => (.string text, rest)
    | '[' :: rest =>
      match skipSpaces rest with
      | ']' :: rest => some (.array [], rest)
      | rest => (readItems n rest).map fun (items, rest) => (.array items, rest)
    | '{' :: rest =>
      match skipSpaces rest with
      | '}' :: rest => some (.object [], rest)
      | rest => (readMembers n rest).map fun (members, rest) => (.object members, rest)
    | cs => readNumber cs

/-- One or more items up to the closing bracket, from the first one on. -/
def readItems (fuel : Nat) (cs : List Char) : Option (List Value × List Char) :=
  match fuel with
  | 0 => none
  | n + 1 => do
    let (item, rest) ← readValue n cs
    match skipSpaces rest with
    | ',' :: rest => do
      let (items, rest) ← readItems n (skipSpaces rest)
      return (item :: items, rest)
    | ']' :: rest => return ([item], rest)
    | _ => none

/-- One or more members up to the closing brace, from the first one on. -/
def readMembers (fuel : Nat) (cs : List Char) :
    Option (List (Option String × Value) × List Char) :=
  match fuel with
  | 0 => none
  | n + 1 =>
    match cs with
    | '"' :: rest => do
      let (name, rest) ← readString rest
      match skipSpaces rest with
      | ':' :: rest => do
        let (v, rest) ← readValue n (skipSpaces rest)
        match skipSpaces rest with
        | ',' :: rest => do
          let (members, rest) ← readMembers n (skipSpaces rest)
          return ((name, v) :: members, rest)
        | '}' :: rest => return ([(name, v)], rest)
        | _ => none
      | _ => none
    | _ => none

end

/-- The value of a text; only blanks may stand around it. -/
def read (text : String) : Option Value := do
  let cs := skipSpaces text.toList
  let (v, rest) ← readValue (2 * cs.length + 1) cs
  if (skipSpaces rest).isEmpty then some v else none

end Checkup.Json
