import Checkup.Text.Digits

/-!
# Formatted output of the shell

* `Shell.escaped` — backslashes and what they stand for.
* `Shell.format` — a format with its arguments. It is used again as long as
  arguments are left.
-/

namespace Checkup.Shell

/-- The bytes of characters. -/
def bytesOf (cs : List Char) : List UInt8 := (String.ofList cs).toUTF8.toList

/-- Whether a character is a digit below eight. -/
def isOctal (c : Char) : Bool := '0' ≤ c && c ≤ '7'

/-- The byte that digits below eight stand for. -/
def octalByte (digits : List Char) : UInt8 :=
  UInt8.ofNat (digits.foldl (fun n c => 8 * n + (c.toNat - '0'.toNat)) 0)

/-- The byte that a letter after a backslash stands for. -/
def letterByte? : Char → Option UInt8
  | 'a' => some 0x07
  | 'b' => some 0x08
  | 'f' => some 0x0C
  | 'n' => some 0x0A
  | 'r' => some 0x0D
  | 't' => some 0x09
  | 'v' => some 0x0B
  | '\\' => some 0x5C
  | _ => none

/-- What a backslash before characters stands for: a byte, and how many characters make
it up. With `zeroFirst`, digits count only after a zero. -/
def escapeAt (zeroFirst : Bool) : List Char → Option (UInt8 × Nat)
  | [] => none
  | c :: rest =>
    match letterByte? c with
    | some b => some (b, 1)
    | none =>
      if zeroFirst then
        if c = '0' then
          let digits := (rest.take 3).takeWhile isOctal
          some (octalByte digits, digits.length + 1)
        else none
      else
        let digits := ((c :: rest).take 3).takeWhile isOctal
        if digits = [] then none else some (octalByte digits, digits.length)

/-- Characters with backslashes replaced by what they stand for. -/
def escaped (zeroFirst : Bool) : List Char → List UInt8
  | [] => []
  | '\\' :: rest =>
    match escapeAt zeroFirst rest with
    | some (b, count) => b :: escaped zeroFirst (rest.drop count)
    | none => bytesOf ['\\'] ++ escaped zeroFirst rest
  | c :: rest => bytesOf [c] ++ escaped zeroFirst rest
termination_by cs => cs.length
decreasing_by all_goals simp only [List.length_cons, List.length_drop]; omega

/-- What a conversion makes of an argument. -/
def converted (conversion : Char) (argument : String) : List UInt8 :=
  if conversion = 'd' || conversion = 'i' || conversion = 'u' then
    bytesOf (toString ((Text.signed64? argument.toList).getD 0)).toList
  else if conversion = 'b' then escaped true argument.toList
  else if conversion = 'c' then bytesOf (argument.toList.take 1)
  else bytesOf argument.toList

/-- One use of a format: what it makes, and the arguments that are left. -/
def formatOnce (arguments : List String) : List Char → List UInt8 × List String
  | [] => ([], arguments)
  | '%' :: '%' :: rest =>
    let (bytes, left) := formatOnce arguments rest
    (bytesOf ['%'] ++ bytes, left)
  | '%' :: c :: rest =>
    let (bytes, left) := formatOnce arguments.tail rest
    (converted c (arguments.headD "") ++ bytes, left)
  | '\\' :: rest =>
    match escapeAt false rest with
    | some (b, count) =>
      let (bytes, left) := formatOnce arguments (rest.drop count)
      (b :: bytes, left)
    | none =>
      let (bytes, left) := formatOnce arguments rest
      (bytesOf ['\\'] ++ bytes, left)
  | c :: rest =>
    let (bytes, left) := formatOnce arguments rest
    (bytesOf [c] ++ bytes, left)
termination_by cs => cs.length
decreasing_by all_goals simp only [List.length_cons, List.length_drop]; omega

/-- A format with its arguments, used again as long as it takes some of those that are left. -/
def format (cs : List Char) (arguments : List String) : List UInt8 :=
  let (bytes, left) := formatOnce arguments cs
  if _h : left ≠ [] ∧ left.length < arguments.length then bytes ++ format cs left else bytes
termination_by arguments.length
decreasing_by exact _h.2

end Checkup.Shell
