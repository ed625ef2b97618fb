import Checkup.Toml.Char

/-!
# Quoted text of TOML

The four kinds of strings, read from behind their opening quotes. Basic strings
know escapes, literal strings do not; the multi-line kinds hold line ends, which
are read as a single line feed.

In a multi-line string one or two quotes stand for themselves, also right before
the closing three.
-/

namespace Checkup.Toml

/-! ## Strings on one line -/

/-- The character that follows a backslash in a short escape. -/
def shortEscape? (c : Char) : Option Char :=
  if c = 'b' then some '\x08'
  else if c = 't' then some '\t'
  else if c = 'n' then some '\n'
  else if c = 'f' then some '\x0c'
  else if c = 'r' then some '\r'
  else if c = '"' then some '"'
  else if c = '\\' then some '\\'
  else none

/-- A basic string on one line: its text, and what follows the closing quote. -/
def readBasic : List Char → Option (List Char × List Char)
  | [] => none
  | '"' :: rest => some ([], rest)
  | '\\' :: 'u' :: a :: b :: c :: d :: rest => do
    let x ← hexChar? [a, b, c, d]
    let (text, rest) ← readBasic rest
    return (x :: text, rest)
  | '\\' :: 'U' :: a :: b :: c :: d :: e :: f :: g :: h :: rest => do
    let x ← hexChar? [a, b, c, d, e, f, g, h]
    let (text, rest) ← readBasic rest
    return (x :: text, rest)
  | '\\' :: c :: rest => do
    let x ← shortEscape? c
    let (text, rest) ← readBasic rest
    return (x :: text, rest)
  | c :: rest => do
    guard (isPlain c && c ≠ '\\')
    let (text, rest) ← readBasic rest
    return (c :: text, rest)

/-- A literal string on one line. -/
def readLiteral : List Char → Option (List Char × List Char)
  | [] => none
  | '\'' :: rest => some ([], rest)
  | c :: rest => do
    guard (isPlain c)
    let (text, rest) ← readLiteral rest
    return (c :: text, rest)

/-! ## Strings over several lines -/

/-- The text behind a line end, if there is one at the front. -/
def afterLineEnd? : List Char → Option (List Char)
  | '\n' :: rest => some rest
  | '\r' :: '\n' :: rest => some rest
  | _ => none

/-- The text without a line end at the front. -/
def dropLineEnd (cs : List Char) : List Char := (afterLineEnd? cs).getD cs

/-- Whether only blanks stand before the next line end. -/
def endsLine (cs : List Char) : Bool := (afterLineEnd? (cs.dropWhile isSpace)).isSome

/-- The quotes that stand right before the closing ones: at most two of them,
given what follows three quotes. -/
def lastQuotes (quote : Char) : List Char → List Char × List Char
  | a :: b :: rest =>
    if a = quote then
      if b = quote then ([quote, quote], rest) else ([quote], b :: rest)
    else ([], a :: b :: rest)
  | [a] => if a = quote then ([quote], []) else ([], [a])
  | [] => ([], [])

/-- A basic string over several lines. While `skipping`, after a backslash that
ends its line, blanks and line ends are left out. -/
def readMultiBasic (skipping : Bool) : List Char → Option (List Char × List Char)
  | [] => none
  | '\n' :: rest => do
    let (text, rest) ← readMultiBasic skipping rest
    return (if skipping then text else '\n' :: text, rest)
  | '\r' :: '\n' :: rest => do
    let (text, rest) ← readMultiBasic skipping rest
    return (if skipping then text else '\n' :: text, rest)
  | '"' :: '"' :: '"' :: rest => some (lastQuotes '"' rest)
  | '\\' :: 'u' :: a :: b :: c :: d :: rest => do
    let x ← hexChar? [a, b, c, d]
    let (text, rest) ← readMultiBasic false rest
    return (x :: text, rest)
  | '\\' :: 'U' :: a :: b :: c :: d :: e :: f :: g :: h :: rest => do
    let x ← hexChar? [a, b, c, d, e, f, g, h]
    let (text, rest) ← readMultiBasic false rest
    return (x :: text, rest)
  | '\\' :: c :: rest =>
    if endsLine (c :: rest) then readMultiBasic true (c :: rest)
    else do
      let x ← shortEscape? c
      let (text, rest) ← readMultiBasic false rest
      return (x :: text, rest)
  | c :: rest =>
    if skipping && isSpace c then readMultiBasic true rest
    else do
      guard (isPlain c && c ≠ '\\')
      let (text, rest) ← readMultiBasic false rest
      return (c :: text, rest)

/-- A literal string over several lines. -/
def readMultiLiteral : List Char → Option (List Char × List Char)
  | [] => none
  | '\n' :: rest => do
    let (text, rest) ← readMultiLiteral rest
    return ('\n' :: text, rest)
  | '\r' :: '\n' :: rest => do
    let (text, rest) ← readMultiLiteral rest
    return ('\n' :: text, rest)
  | '\'' :: '\'' :: '\'' :: rest => some (lastQuotes '\'' rest)
  | c :: rest => do
    guard (isPlain c)
    let (text, rest) ← readMultiLiteral rest
    return (c :: text, rest)

/-- A string of any kind at the front. -/
def readString : List Char → Option (List Char × List Char)
  | '"' :: '"' :: '"' :: rest => readMultiBasic false (dropLineEnd rest)
  | '"' :: rest => readBasic rest
  | '\'' :: '\'' :: '\'' :: rest => readMultiLiteral (dropLineEnd rest)
  | '\'' :: rest => readLiteral rest
  | _ => none

end Checkup.Toml
