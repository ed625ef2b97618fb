/-!
# Decimal numbers as text

Numbers of 64 bits, with and without a sign. A plus may stand before the
digits, blanks and separators may not.
-/

namespace Checkup.Text

/-- The number that decimal digits stand for. -/
def decimalNumber (digits : List Char) : Nat :=
  digits.foldl (fun n c => 10 * n + (c.toNat - '0'.toNat)) 0

/-- The number that one or more decimal digits stand for; every character has to be one. -/
def digitsNumber? (digits : List Char) : Option Nat :=
  if digits.isEmpty || !digits.all Char.isDigit then none else some (decimalNumber digits)

/-- A number of 64 bits without a sign. -/
def unsigned64? (cs : List Char) : Option Nat :=
  let digits := match cs with
    | '+' :: rest => rest
    | cs => cs
  (digitsNumber? digits).filter (· < 18446744073709551616)

/-- Whether a number fits into 64 bits with a sign. -/
def fitsSigned64 (n : Int) : Bool :=
  -9223372036854775808 ≤ n && n ≤ 9223372036854775807

/-- A number of 64 bits with a sign. -/
def signed64? (cs : List Char) : Option Int :=
  let n : Option Int := match cs with
    | '+' :: rest => (digitsNumber? rest).map Int.ofNat
    | '-' :: rest => (digitsNumber? rest).map fun n => -(n : Int)
    | cs => (digitsNumber? cs).map Int.ofNat
  n.filter fitsSigned64

end Checkup.Text
