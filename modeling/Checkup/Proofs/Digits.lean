import Checkup.Text.Digits
import Mathlib.Data.Nat.Digits.Lemmas

/-!
# Decimal digits

What is written with decimal digits is read back, up to where the digits end, and what is read is
spelled:

* `Text.takeWhile_dropWhile_append` — a text of one class of characters ends where another
  class starts.
* `Text.decimalNumber_toDigits`, `Text.digitsNumber?_toDigits`, `Text.signed64?_toString` —
  numbers are read back.
* `Text.head?_toDigits` — no number but zero starts with a zero.
* `Text.SpellsNumber`, `Text.SpellsInteger` — digits, and digits behind a sign, as a grammar. A
  number is read just if it is spelled (`digitsNumber?_eq_some_iff`, `signed64?_eq_some_iff`).
-/

namespace Checkup.Text

/-- A text of one class of characters ends where another class starts. -/
theorem takeWhile_dropWhile_append {p : Char → Bool} {text rest : List Char}
    (hall : ∀ c ∈ text, p c = true) (hrest : ∀ c ∈ rest.head?, p c = false) :
    (text ++ rest).takeWhile p = text ∧ (text ++ rest).dropWhile p = rest := by
  rw [List.takeWhile_append_of_pos hall, List.dropWhile_append_of_pos hall]
  cases rest with
  | nil => simp
  | cons c rest => simp [hrest c rfl]

/-- The digits of a number stand for it. -/
theorem decimalNumber_toDigits (n : Nat) : decimalNumber (Nat.toDigits 10 n) = n := by
  have hvalue := Nat.ofDigitChars_toDigits (b := 10) (n := n) (by decide) (by decide)
  rwa [Nat.ofDigitChars_eq_foldl] at hvalue

theorem isDigit_of_mem_toDigits {n : Nat} {c : Char} (h : c ∈ Nat.toDigits 10 n) :
    c.isDigit = true :=
  Nat.isDigit_of_mem_toDigits (by decide) (by decide) h

theorem digitsNumber?_toDigits (n : Nat) : digitsNumber? (Nat.toDigits 10 n) = some n := by
  have hdigits : (Nat.toDigits 10 n).all Char.isDigit = true :=
    List.all_eq_true.mpr fun c hc => isDigit_of_mem_toDigits hc
  have hne : (Nat.toDigits 10 n).isEmpty = false := by
    simp
  simp only [digitsNumber?, hne, hdigits, Bool.not_true, Bool.or_self, Bool.false_eq_true, if_false,
    decimalNumber_toDigits]

theorem toList_toString_int (n : Int) :
    (toString n).toList =
      if n < 0 then '-' :: Nat.toDigits 10 n.natAbs else Nat.toDigits 10 n.natAbs := by
  cases n with
  | ofNat m => simp [Int.toString_eq_repr, Int.repr]
  | negSucc m => simp [Int.toString_eq_repr, Int.repr]

/-- No number but zero starts with a zero. -/
theorem head?_toDigits {n : Nat} (h : 0 < n) : (Nat.toDigits 10 n).head? ≠ some '0' := by
  induction n using Nat.strongRecOn with
  | ind n ih =>
    by_cases hlt : n < 10
    · rw [Nat.toDigits_of_lt_base hlt, List.head?_cons, ne_eq, Option.some.injEq,
        Nat.digitChar_eq_zero]
      omega
    · -- the first digit is that of the tenth part
      have hhead := ih (n / 10) (by omega) (by omega)
      rw [Nat.toDigits_of_base_le (by decide) (by omega), List.head?_append]
      cases hdigits : (Nat.toDigits 10 (n / 10)).head? with
      | none => simp at hdigits
      | some c => simpa [hdigits] using hhead

/-! ## Spelled numbers -/

variable {cs : List Char} {n : Nat} {t : Int}

/-- One or more decimal digits, and the number that they spell. With every further digit the
number before it counts ten times. -/
inductive SpellsNumber : List Char → Nat → Prop
  /-- one digit -/
  | digit {d : Nat} : d < 10 → SpellsNumber [d.digitChar] d
  /-- one more digit -/
  | more {cs : List Char} {n d : Nat} :
      SpellsNumber cs n → d < 10 → SpellsNumber (cs ++ [d.digitChar]) (10 * n + d)

/-- A number, perhaps behind a sign. -/
inductive SpellsInteger : List Char → Int → Prop
  /-- there is no sign -/
  | unsigned {cs : List Char} {n : Nat} : SpellsNumber cs n → SpellsInteger cs n
  /-- a plus is before it -/
  | plus {cs : List Char} {n : Nat} : SpellsNumber cs n → SpellsInteger ('+' :: cs) n
  /-- a minus is before it -/
  | minus {cs : List Char} {n : Nat} : SpellsNumber cs n → SpellsInteger ('-' :: cs) (-n)

/-- The digits are the characters of the numbers below ten. -/
theorem isDigit_iff {c : Char} : c.isDigit = true ↔ ∃ d < 10, c = Nat.digitChar d := by
  constructor
  · intro h
    obtain ⟨hlow, hhigh⟩ : 48 ≤ c.toNat ∧ c.toNat ≤ 57 := Char.isDigit_iff_toNat.mp h
    refine ⟨c.toNat - 48, by omega, Char.toNat_inj.mp ?_⟩
    rw [Nat.toNat_digitChar_of_lt_ten (by omega)]
    omega
  · rintro ⟨d, hd, rfl⟩
    rw [Nat.isDigit_digitChar, decide_eq_true hd]

theorem decimalNumber_concat (cs : List Char) {d : Nat} (hd : d < 10) :
    decimalNumber (cs ++ [d.digitChar]) = 10 * decimalNumber cs + d := by
  simp [decimalNumber, Nat.toNat_digitChar_sub_48_of_lt_ten hd]

/-- Digits are read as a number if there are any. -/
theorem digitsNumber?_eq_some_iff_digits :
    digitsNumber? cs = some n ↔
      cs ≠ [] ∧ (∀ c ∈ cs, c.isDigit = true) ∧ decimalNumber cs = n := by
  simp [digitsNumber?, and_assoc]

/-- Digits spell the number that they are read as. -/
theorem spellsNumber_decimalNumber (hne : cs ≠ []) (hdigits : ∀ c ∈ cs, c.isDigit = true) :
    SpellsNumber cs (decimalNumber cs) := by
  induction cs using List.reverseRecOn with
  | nil => exact absurd rfl hne
  | append_singleton before c ih =>
    obtain ⟨d, hd, rfl⟩ := isDigit_iff.mp (hdigits c (by simp))
    rw [decimalNumber_concat before hd]
    by_cases hbefore : before = []
    · subst hbefore
      simpa [decimalNumber] using SpellsNumber.digit hd
    · exact .more (ih hbefore fun c hc => hdigits c (List.mem_append_left _ hc)) hd

/-- **A number is read just if it is spelled.** -/
theorem digitsNumber?_eq_some_iff : digitsNumber? cs = some n ↔ SpellsNumber cs n := by
  rw [digitsNumber?_eq_some_iff_digits]
  constructor
  · rintro ⟨hne, hdigits, rfl⟩
    exact spellsNumber_decimalNumber hne hdigits
  · intro h
    induction h with
    | @digit d hd =>
      refine ⟨List.cons_ne_nil _ _, fun c hc => ?_, ?_⟩
      · exact isDigit_iff.mpr ⟨d, hd, List.mem_singleton.mp hc⟩
      · simpa [decimalNumber] using decimalNumber_concat [] hd
    | @more cs n d _ hd ih =>
      obtain ⟨-, hdigits, rfl⟩ := ih
      refine ⟨List.concat_ne_nil _ _, fun c hc => ?_, decimalNumber_concat cs hd⟩
      rcases List.mem_append.mp hc with hc | hc
      · exact hdigits c hc
      · exact isDigit_iff.mpr ⟨d, hd, List.mem_singleton.mp hc⟩

/-- The digits of a number spell it. -/
theorem spellsNumber_toDigits (n : Nat) : SpellsNumber (Nat.toDigits 10 n) n :=
  digitsNumber?_eq_some_iff.mp (digitsNumber?_toDigits n)

/-- A number starts with a digit, so with no sign. -/
theorem SpellsNumber.ne_sign {c : Char} (h : SpellsNumber (c :: cs) n) : c ≠ '+' ∧ c ≠ '-' := by
  obtain ⟨-, hdigits, -⟩ := digitsNumber?_eq_some_iff_digits.mp (digitsNumber?_eq_some_iff.mpr h)
  have hdigit := hdigits c List.mem_cons_self
  constructor <;> rintro rfl <;> revert hdigit <;> decide

theorem fitsSigned64_iff : fitsSigned64 t = true ↔ -2 ^ 63 ≤ t ∧ t < 2 ^ 63 := by
  rw [fitsSigned64, Bool.and_eq_true, decide_eq_true_iff, decide_eq_true_iff]
  omega

/-- **A number of 64 bits is read just if it is spelled**, perhaps with a sign. -/
theorem signed64?_eq_some_iff :
    signed64? cs = some t ↔ SpellsInteger cs t ∧ -2 ^ 63 ≤ t ∧ t < 2 ^ 63 := by
  unfold signed64?
  rw [Option.filter_eq_some_iff, fitsSigned64_iff]
  refine and_congr_left fun _ => ?_
  constructor
  · intro h
    split at h
    · obtain ⟨n, hn, rfl⟩ := Option.map_eq_some_iff.mp h
      exact .plus (digitsNumber?_eq_some_iff.mp hn)
    · obtain ⟨m, hm, rfl⟩ := Option.map_eq_some_iff.mp h
      obtain ⟨n, hn, hm⟩ := Option.bind_eq_some_iff.mp hm
      cases hm
      exact .minus (digitsNumber?_eq_some_iff.mp hn)
    · obtain ⟨n, hn, rfl⟩ := Option.map_eq_some_iff.mp h
      exact .unsigned (digitsNumber?_eq_some_iff.mp hn)
  · intro h
    cases h with
    | plus h | minus h => simp [digitsNumber?_eq_some_iff.mpr h]
    | unsigned h =>
      split
      · exact absurd rfl h.ne_sign.1
      · exact absurd rfl h.ne_sign.2
      · simp [digitsNumber?_eq_some_iff.mpr h]

/-- The text of a number spells it. -/
theorem spellsInteger_toString (n : Int) : SpellsInteger (toString n).toList n := by
  rw [toList_toString_int]
  split
  · have hn : -(n.natAbs : Int) = n := by omega
    have hminus := SpellsInteger.minus (spellsNumber_toDigits n.natAbs)
    rwa [hn] at hminus
  · have hn : (n.natAbs : Int) = n := by omega
    have hunsigned := SpellsInteger.unsigned (spellsNumber_toDigits n.natAbs)
    rwa [hn] at hunsigned

/-- A number of 64 bits with a sign is read back from its text. -/
theorem signed64?_toString {n : Int} (h : fitsSigned64 n = true) :
    signed64? (toString n).toList = some n :=
  signed64?_eq_some_iff.mpr ⟨spellsInteger_toString n, fitsSigned64_iff.mp h⟩

end Checkup.Text
