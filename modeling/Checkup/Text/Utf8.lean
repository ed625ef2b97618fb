/-!
# Text from bytes

Bytes as text by the rules of UTF-8, whatever the bytes are.

* `Text.takeChar` — the first character of bytes. The longest start of a
  character that does not go on as it should counts as one replacement
  character.
* `Text.decode` — all characters.
* `Text.lines` — the lines of a text, without the ends of lines.
-/

namespace Checkup.Text

/-- The character that stands for bytes that make up none. -/
def replacement : Char := '\uFFFD'

/-- How many bytes follow the first one of a character, and the range of the second. -/
def sequenceOf (first : UInt8) : Option (Nat × UInt8 × UInt8) :=
  if 0xC2 ≤ first && first ≤ 0xDF then some (1, 0x80, 0xBF)
  else if first = 0xE0 then some (2, 0xA0, 0xBF)
  else if first = 0xED then some (2, 0x80, 0x9F)
  else if 0xE1 ≤ first && first ≤ 0xEF then some (2, 0x80, 0xBF)
  else if first = 0xF0 then some (3, 0x90, 0xBF)
  else if 0xF1 ≤ first && first ≤ 0xF3 then some (3, 0x80, 0xBF)
  else if first = 0xF4 then some (3, 0x80, 0x8F)
  else none

/-- The first of the bytes that go on a character: the first one lies in a range, the
others are continuations. -/
def continuation (low high : UInt8) : Nat → List UInt8 → List UInt8
  | 0, _ => []
  | _ + 1, [] => []
  | n + 1, b :: rest =>
    if low ≤ b && b ≤ high then b :: continuation 0x80 0xBF n rest else []

/-- The first character after its first byte, and what follows it. -/
def takeChar (first : UInt8) (rest : List UInt8) : Char × List UInt8 :=
  if first < 0x80 then (Char.ofNat first.toNat, rest)
  else
    match sequenceOf first with
    | none => (replacement, rest)
    | some (count, low, high) =>
      let more := continuation low high count rest
      let lead := first.toNat % Nat.pow 2 (6 - count)
      if more.length = count then
        (Char.ofNat (more.foldl (fun n b => n * 64 + b.toNat % 64) lead), rest.drop count)
      else (replacement, rest.drop more.length)

theorem length_snd_takeChar_le (first : UInt8) (rest : List UInt8) :
    (takeChar first rest).2.length ≤ rest.length := by
  unfold takeChar
  split
  · exact Nat.le_refl _
  · split
    · exact Nat.le_refl _
    · simp only
      split <;> simp only [List.length_drop] <;> omega

/-- The characters of bytes. -/
def decode : List UInt8 → List Char
  | [] => []
  | first :: rest => (takeChar first rest).1 :: decode (takeChar first rest).2
termination_by bytes => bytes.length
decreasing_by
  have := length_snd_takeChar_le first rest
  simp only [List.length_cons]
  omega

/-- The line without the carriage return at its end. -/
def withoutReturn (line : List Char) : List Char :=
  if line.getLast? = some '\r' then line.dropLast else line

/-- The lines of a text. Nothing follows the end of the last line; `line` is the
line that has begun, backwards. -/
def linesFrom (line : List Char) : List Char → List (List Char)
  | [] => if line = [] then [] else [line.reverse]
  | c :: rest =>
    if c = '\n' then withoutReturn line.reverse :: linesFrom [] rest
    else linesFrom (c :: line) rest

/-- The lines of bytes. -/
def lines (bytes : List UInt8) : List String :=
  (linesFrom [] (decode bytes)).map String.ofList

end Checkup.Text
