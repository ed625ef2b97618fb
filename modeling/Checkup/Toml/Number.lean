import Checkup.Toml.Char
import Checkup.Toml.DateTime

/-!
# Numbers of TOML

Integers are decimal, hexadecimal, octal or binary and fit in 64 bits with a
sign. Floats are decimal. Underscores may stand between digits.

Both are read from a whole lexeme, so nothing may be left over.
-/

namespace Checkup.Toml

/-! ## Digits -/

/-- Digits with single underscores between them, after a first digit: the digits
and what follows. An underscore without a digit on both sides is an error. -/
def moreDigits (isDigit : Char → Bool) : List Char → Option (List Char × List Char)
  | [] => some ([], [])
  | '_' :: c :: rest =>
    if isDigit c then (moreDigits isDigit rest).map fun (ds, cs) => (c :: ds, cs) else none
  | c :: rest =>
    if c = '_' then none
    else if isDigit c then (moreDigits isDigit rest).map fun (ds, cs) => (c :: ds, cs)
    else some ([], c :: rest)

/-- One or more digits at the front. -/
def someDigits (isDigit : Char → Bool) : List Char → Option (List Char × List Char)
  | [] => none
  | c :: rest =>
    if isDigit c then (moreDigits isDigit rest).map fun (ds, cs) => (c :: ds, cs) else none

/-- A decimal number without leading zeros at the front. -/
def plainDigits : List Char → Option (List Char × List Char)
  | '0' :: rest => some (['0'], rest)
  | cs => someDigits Char.isDigit cs

/-- An optional sign at the front: whether it is a minus, and what follows. -/
def readSign : List Char → Bool × List Char
  | '+' :: rest => (false, rest)
  | '-' :: rest => (true, rest)
  | cs => (false, cs)

/-! ## Integers -/

/-- The number that digits of any base up to sixteen stand for. -/
def numberInBase (base : Nat) (digits : List Char) : Nat :=
  digits.foldl (fun n c => base * n + (Text.hexValue? c).getD 0) 0

/-- Whether a character is a digit of the base. -/
def isDigitOf (base : Nat) (c : Char) : Bool := (Text.hexValue? c).any (· < base)

/-- An integer, if it fits in 64 bits with a sign. -/
def int64? (n : Int) : Option Int :=
  if Text.fitsSigned64 n then some n else none

/-- A number in a base other than ten, behind its mark. -/
def readBased (base : Nat) (cs : List Char) : Option Int :=
  match someDigits (isDigitOf base) cs with
  | some (digits, []) => int64? (numberInBase base digits)
  | _ => none

/-- An integer as the whole lexeme. -/
def readInteger : List Char → Option Int
  | '0' :: 'x' :: rest => readBased 16 rest
  | '0' :: 'o' :: rest => readBased 8 rest
  | '0' :: 'b' :: rest => readBased 2 rest
  | cs =>
    let (negative, rest) := readSign cs
    match plainDigits rest with
    | some (digits, []) =>
      let n : Int := Text.decimalNumber digits
      int64? (if negative then -n else n)
    | _ => none

/-! ## Floats -/

/-- The nearest float to `mantissa · 10^exponent`. Magnitudes far beyond the
range of floats are cut off first. -/
def floatOfDecimal (mantissa : Nat) (exponent : Int) : Float :=
  let magnitude := ((Nat.toDigits 10 mantissa).length : Int) + exponent
  if mantissa = 0 ∨ magnitude < -400 then 0.0
  else if 400 < magnitude then 1.0 / 0.0
  else if exponent < 0 then Float.ofScientific mantissa true exponent.natAbs
  else Float.ofScientific mantissa false exponent.natAbs

/-- The exponent behind its mark, as the rest of the lexeme. -/
def readExponent (cs : List Char) : Option Int :=
  let (negative, rest) := readSign cs
  match someDigits Char.isDigit rest with
  | some (digits, []) =>
    let n : Int := Text.decimalNumber digits
    some (if negative then -n else n)
  | _ => none

/-- Whether a character marks an exponent. -/
def isExponentMark (c : Char) : Bool := c = 'e' || c = 'E'

/-- The magnitude of a decimal float, which has a fraction, an exponent or both. -/
def readMagnitude (cs : List Char) : Option Float := do
  let (whole, rest) ← plainDigits cs
  let (fraction, rest, hasFraction) ← match rest with
    | '.' :: rest => do
      let (fraction, rest) ← someDigits Char.isDigit rest
      some (fraction, rest, true)
    | rest => some ([], rest, false)
  let digits := whole ++ fraction
  let value (exponent : Int) :=
    floatOfDecimal (Text.decimalNumber digits) (exponent - fraction.length)
  match rest with
  | [] => if hasFraction then some (value 0) else none
  | mark :: rest => if isExponentMark mark then (readExponent rest).map value else none

/-- A float as the whole lexeme. A decimal float that overflows to positive
infinity is an error. -/
def readFloat (cs : List Char) : Option Float :=
  let (negative, rest) := readSign cs
  let signed (f : Float) := if negative then -f else f
  if rest = "inf".toList then some (signed (1.0 / 0.0))
  else if rest = "nan".toList then some (signed (0.0 / 0.0))
  else
    (readMagnitude rest).bind fun f =>
      let f := signed f
      if f == 1.0 / 0.0 then none else some f

end Checkup.Toml
