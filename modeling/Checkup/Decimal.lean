/-!
# Shortest decimals

A binary floating point number has many decimal spellings that read back as the
same number. `shortest` finds the one with the fewest digits; of several, the
one nearest to the number.

All arithmetic is on natural numbers. The numbers that read back as `m · 2^q`
lie between the middles to its two neighbours; the ends count if `m` is even.
-/

namespace Checkup.Decimal

/-- The value and the ends of the interval that reads back as it, over one denominator. -/
structure Interval where
  /-- the lower end -/
  low : Nat
  /-- the number itself -/
  value : Nat
  /-- the upper end -/
  high : Nat
  /-- the denominator of all three -/
  den : Nat
  /-- whether the ends read back too -/
  closed : Bool

/-- The interval around `m · 2^q`. Below a power of two the gap is half as wide. -/
def Interval.around (m : Nat) (q : Int) (powerOfTwo : Bool) : Interval :=
  let up := Nat.pow 2 q.toNat
  { low := (4 * m - (if powerOfTwo then 1 else 2)) * up
    value := 4 * m * up
    high := (4 * m + 2) * up
    den := 4 * Nat.pow 2 (-q).toNat
    closed := m % 2 = 0 }

/-- The number of decimal digits. -/
def digitCount (n : Nat) : Nat := (Nat.toDigits 10 n).length

/-- The exponent of the first digit of `num / den`, which is positive. -/
def leadingExponent (num den : Nat) : Int :=
  if den ≤ num then (digitCount (num / den) : Int) - 1
  else
    let j := digitCount den - digitCount num
    if den ≤ num * Nat.pow 10 j then -(j : Int) else -(j + 1 : Int)

/-- Whether `digits · 10^exponent` lies in the interval. -/
def Interval.contains (i : Interval) (digits : Nat) (exponent : Int) : Bool :=
  let x := digits * Nat.pow 10 exponent.toNat * i.den
  let scale := Nat.pow 10 (-exponent).toNat
  if i.closed then i.low * scale ≤ x && x ≤ i.high * scale
  else i.low * scale < x && x < i.high * scale

/-- The neighbours of the number on the grid of multiples of `10^exponent` that
lie in the interval: the nearer one, an even one if both are equally near. -/
def Interval.onGrid (i : Interval) (exponent : Int) : Option Nat :=
  let unit := Nat.pow 10 exponent.toNat * i.den
  let scaled := i.value * Nat.pow 10 (-exponent).toNat
  let below := scaled / unit
  let distance := scaled - below * unit
  let nearer :=
    if 2 * distance < unit || (2 * distance = unit && below % 2 = 0) then below else below + 1
  let other := if nearer = below then below + 1 else below
  if i.contains nearer exponent then some nearer
  else if i.contains other exponent then some other
  else none

/-- The grid with the fewest digits that has a hit, from `digits` on; at most
`more` further grids are tried. -/
def Interval.search (i : Interval) (leading : Int) (digits : Nat) :
    (more : Nat) → Option (Nat × Int)
  | 0 => none
  | more + 1 =>
    let exponent := leading - digits + 1
    match i.onGrid exponent with
    | some n => some (n, exponent)
    | none => i.search leading (digits + 1) more

/-- The shortest decimal that reads back as `m · 2^q`, as digits and an exponent
of ten. Seventeen digits always suffice. -/
def shortest (m : Nat) (q : Int) (powerOfTwo : Bool) : Nat × Int :=
  let i := Interval.around m q powerOfTwo
  (i.search (leadingExponent i.value i.den) 1 17).getD (0, 0)

/-- Digits without an exponent: the point is put in, or zeros are filled up. -/
def positional (digits : Nat) (exponent : Int) : String :=
  let ds := Nat.toDigits 10 digits
  if 0 ≤ exponent then String.ofList (ds ++ List.replicate exponent.toNat '0')
  else
    let places := (-exponent).toNat
    let ds := List.replicate (places + 1 - ds.length) '0' ++ ds
    let whole := ds.take (ds.length - places)
    let fraction := (ds.drop (ds.length - places)).reverse.dropWhile (· = '0') |>.reverse
    String.ofList (if fraction = [] then whole else whole ++ '.' :: fraction)

/-- A float in the fewest digits that read back, never with an exponent. A whole
number has no point. -/
def floatText (x : Float) : String :=
  let bits := x.toBits.toNat
  let sign := if bits / Nat.pow 2 63 = 1 then "-" else ""
  let exponent := bits / Nat.pow 2 52 % Nat.pow 2 11
  let fraction := bits % Nat.pow 2 52
  if exponent = 2047 then (if fraction = 0 then sign ++ "inf" else "NaN")
  else if exponent = 0 ∧ fraction = 0 then sign ++ "0"
  else
    let m := if exponent = 0 then fraction else fraction + Nat.pow 2 52
    let q : Int := (if exponent = 0 then 1 else exponent : Nat) - 1075
    let (digits, e) := shortest m q (fraction = 0 ∧ 1 < exponent)
    sign ++ positional digits e

end Checkup.Decimal
