import Checkup.Text.Hex

/-!
# Character classes of TOML

TOML 1.0 text: which characters stand where.
-/

namespace Checkup.Toml

/-- A blank inside a line. -/
def isSpace (c : Char) : Bool := c = ' ' || c = '\t'

/-- A character outside ASCII. -/
def isNonAscii (c : Char) : Bool := 0x80 ≤ c.toNat

/-- A printable ASCII character or a space. -/
def isPrintable (c : Char) : Bool := 0x20 ≤ c.toNat && c.toNat ≤ 0x7E

/-- A character that a comment or a string may hold as it is: no control
character but the tab. -/
def isPlain (c : Char) : Bool := c = '\t' || isPrintable c || isNonAscii c

/-- A character of an unquoted key. -/
def isBareKey (c : Char) : Bool := c.isAlphanum || c = '_' || c = '-'

/-- The character that hexadecimal digits stand for, if they name a scalar value. -/
def hexChar? (digits : List Char) : Option Char := do
  let n ← Text.hexNumber? digits
  if n.isValidChar then some (Char.ofNat n) else none

end Checkup.Toml
