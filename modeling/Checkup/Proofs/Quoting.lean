import Checkup.Toml.Quoted
import Checkup.Toml.Writer
import Mathlib.Data.Option.Basic

/-!
# Quoted text is read back

Every form of quoting is undone by its reader. What follows the closing quotes must not be
a quote, which no text that is written puts there.

* `Toml.readBasic_escape` — escapes on one line.
* `Toml.readMultiBasic_escape`, `Toml.readMultiLiteral_text` — text over several lines, where
  up to two quotes in a row stand for themselves, also before the closing ones.
* `Toml.readString_quoted`, `Toml.readString_writeString` — whatever form is chosen.
-/

namespace Checkup.Toml

/-! ## Characters -/

/-- A character stands for itself unless it needs a code or ends a line. -/
theorem isPlain_iff {c : Char} : isPlain c = true ↔ needsCode c = false ∧ c ≠ '\n' := by
  have htab : c = '\t' ↔ c.toNat = 9 := Char.toNat_inj.symm
  have hfeed : c = '\n' ↔ c.toNat = 10 := Char.toNat_inj.symm
  simp only [isPlain, needsCode, isPrintable, isNonAscii, ne_eq, htab, hfeed, decide_not,
    Bool.or_eq_true, Bool.and_eq_true, Bool.and_eq_false_iff, Bool.or_eq_false_iff,
    Bool.not_eq_false', decide_eq_true_eq, decide_eq_false_iff_not]
  omega

/-- A control character is read back from its code. -/
theorem hexChar?_code {c : Char} (h : needsCode c = true) :
    hexChar? ['0', '0', (Text.hexDigit (c.toNat / 16)).toUpper,
      (Text.hexDigit (c.toNat % 16)).toUpper] = some c := by
  have hlt : c.toNat < 128 := by
    simp only [needsCode, Bool.and_eq_true, Bool.or_eq_true, decide_eq_true_eq] at h
    omega
  have hall : ∀ n : Fin 128, hexChar? ['0', '0', (Text.hexDigit (n.val / 16)).toUpper,
      (Text.hexDigit (n.val % 16)).toUpper] = some (Char.ofNat n) := by decide +kernel
  have hc := hall ⟨c.toNat, hlt⟩
  rwa [Char.ofNat_toNat] at hc

/-- What was read, with a character before it. -/
def before (c : Char) (r : Option (List Char × List Char)) : Option (List Char × List Char) :=
  r.map fun r => (c :: r.1, r.2)

@[simp] theorem before_some (c : Char) (text rest : List Char) :
    before c (some (text, rest)) = some (c :: text, rest) := rfl

@[simp] theorem bind_eq_before (c : Char) (r : Option (List Char × List Char)) :
    (r.bind fun r => some (c :: r.1, r.2)) = before c r := by
  cases r <;> rfl

/-! ## One line -/

theorem readBasic_plain {c : Char} (hplain : isPlain c = true) (hquote : c ≠ '"')
    (hback : c ≠ '\\') (rest : List Char) : readBasic (c :: rest) = before c (readBasic rest) := by
  rw [readBasic]
  · simp [guard, hplain, hback]
  · exact fun h => hquote h
  · exact fun _ _ _ _ _ h => absurd h hback
  · exact fun _ _ _ _ _ _ _ _ _ h => absurd h hback
  · exact fun _ _ h => absurd h hback

/-- A character is written by a short escape, by its code, or as it is. -/
theorem escapeChar_cases (c : Char) :
    (∃ e, escapeChar c = ['\\', e] ∧ shortEscape? e = some c) ∨
      (escapeChar c = codeEscape c ∧ needsCode c = true) ∨
      (escapeChar c = [c] ∧ isPlain c = true ∧ c ≠ '"' ∧ c ≠ '\\') := by
  by_cases hshort : c ∈ ['\x08', '\t', '\n', '\x0c', '\r', '"', '\\']
  · refine .inl ?_
    simp only [List.mem_cons, List.not_mem_nil, or_false] at hshort
    rcases hshort with rfl | rfl | rfl | rfl | rfl | rfl | rfl
    all_goals exact ⟨_, rfl, by decide⟩
  · simp only [List.mem_cons, List.not_mem_nil, or_false, not_or] at hshort
    obtain ⟨hb, ht, hn, hf, hr, hquote, hback⟩ := hshort
    rw [escapeChar, if_neg hb, if_neg ht, if_neg hn, if_neg hf, if_neg hr, if_neg hquote,
      if_neg hback]
    split
    · rename_i hcode
      exact .inr (.inl ⟨rfl, hcode⟩)
    · rename_i hcode
      exact .inr (.inr ⟨rfl, isPlain_iff.mpr ⟨by simpa using hcode, hn⟩, hquote, hback⟩)

/-- A short escape is none of a code, and does not end a line. -/
theorem shortEscape?_ne {e c : Char} (h : shortEscape? e = some c) :
    e ≠ 'u' ∧ e ≠ 'U' ∧ isSpace e = false ∧ e ≠ '\n' ∧ e ≠ '\r' := by
  have hne : ∀ d, shortEscape? d = none → e ≠ d := by
    rintro d hd rfl
    rw [h] at hd
    cases hd
  refine ⟨hne _ (by decide), hne _ (by decide), ?_, hne _ (by decide), hne _ (by decide)⟩
  rw [isSpace, Bool.or_eq_false_iff, decide_eq_false_iff_not, decide_eq_false_iff_not]
  exact ⟨hne _ (by decide), hne _ (by decide)⟩

/-- A character is read back from its escape. -/
theorem readBasic_escapeChar (c : Char) (rest : List Char) :
    readBasic (escapeChar c ++ rest) = before c (readBasic rest) := by
  rcases escapeChar_cases c with ⟨e, hc, he⟩ | ⟨hc, hcode⟩ | ⟨hc, hplain, hquote, hback⟩
  · obtain ⟨hu, hU, -⟩ := shortEscape?_ne he
    rw [hc]
    simp [readBasic, he, hu, hU]
  · rw [hc]
    simp [codeEscape, readBasic, hexChar?_code hcode]
  · rw [hc]
    exact readBasic_plain hplain hquote hback rest

/-- Escapes on one line are read back. -/
theorem readBasic_escape (text rest : List Char) :
    readBasic (text.flatMap escapeChar ++ '"' :: rest) = some (text, rest) := by
  induction text with
  | nil => rfl
  | cons c text ih =>
    rw [List.flatMap_cons, List.append_assoc, readBasic_escapeChar, ih, before_some]

/-- Text on one line is read back as it is. -/
theorem readLiteral_text {text : List Char} (hplain : ∀ c ∈ text, isPlain c = true)
    (hquote : '\'' ∉ text) (rest : List Char) :
    readLiteral (text ++ '\'' :: rest) = some (text, rest) := by
  induction text with
  | nil => rfl
  | cons c text ih =>
    rw [List.mem_cons, not_or] at hquote
    have htext := ih (fun d hd => hplain d (List.mem_cons_of_mem _ hd)) hquote.2
    rw [List.cons_append, readLiteral]
    · simp [guard, hplain c List.mem_cons_self, htext]
    · exact fun h => hquote.1 h.symm

/-! ## Several lines -/

/-- The quotes before the closing ones are told from what follows. -/
theorem lastQuotes_of_head? {quote : Char} {rest : List Char} (h : rest.head? ≠ some quote) :
    lastQuotes quote rest = ([], rest) ∧ lastQuotes quote (quote :: rest) = ([quote], rest) ∧
      lastQuotes quote (quote :: quote :: rest) = ([quote, quote], rest) := by
  cases rest with
  | nil => simp [lastQuotes]
  | cons c rest =>
    have hc : c ≠ quote := fun he => h (he ▸ rfl)
    cases rest <;> simp [lastQuotes, hc]

theorem longestRun_mono (quote : Char) (text : List Char) :
    ∀ {run run' : Nat}, run ≤ run' → longestRun quote run text ≤ longestRun quote run' text := by
  induction text with
  | nil => exact fun h => h
  | cons c text ih =>
    intro run run' h
    rw [longestRun, longestRun]
    split
    · exact ih (Nat.succ_le_succ h)
    · omega

theorem le_longestRun (quote : Char) (text : List Char) :
    ∀ run : Nat, run ≤ longestRun quote run text := by
  induction text with
  | nil => exact fun run => Nat.le_refl run
  | cons c text ih =>
    intro run
    rw [longestRun]
    split
    · exact Nat.le_of_succ_le (ih (run + 1))
    · exact Nat.le_max_left _ _

/-- What comes after a character has no longer runs. -/
theorem longestRun_tail (quote c : Char) (text : List Char) :
    longestRun quote 0 text ≤ longestRun quote 0 (c :: text) := by
  rw [longestRun]
  split
  · exact longestRun_mono quote text (Nat.zero_le 1)
  · exact Nat.le_max_right _ _

/-- A text without long runs starts with three quotes only together with the closing ones. -/
theorem eq_of_quotes_prefix {quote : Char} {text rest : List Char}
    (hrun : longestRun quote 0 text ≤ 2)
    (hquotes : [quote, quote, quote] <+: text ++ quote :: quote :: quote :: rest) :
    text = [] ∨ text = [quote] ∨ text = [quote, quote] := by
  rcases text with - | ⟨a, - | ⟨b, - | ⟨c, text⟩⟩⟩
  · exact .inl rfl
  · simp only [List.cons_append, List.cons_prefix_cons] at hquotes
    obtain ⟨rfl, -⟩ := hquotes
    exact .inr (.inl rfl)
  · simp only [List.cons_append, List.cons_prefix_cons] at hquotes
    obtain ⟨rfl, rfl, -⟩ := hquotes
    exact .inr (.inr rfl)
  · simp only [List.cons_append, List.cons_prefix_cons] at hquotes
    obtain ⟨rfl, rfl, rfl, -⟩ := hquotes
    have hle := le_longestRun quote text 3
    simp only [longestRun, if_true] at hrun
    exact absurd (Nat.le_trans hle hrun) (by decide)

/-- A character of a literal text stands for itself, unless it is the first of three quotes. -/
theorem readMultiLiteral_plain {c : Char} (hplain : isPlain c = true ∨ c = '\n') (rest : List Char)
    (hquotes : ¬ ['\'', '\'', '\''] <+: c :: rest) :
    readMultiLiteral (c :: rest) = before c (readMultiLiteral rest) := by
  rcases hplain with hplain | rfl
  · obtain ⟨hcode, hfeed⟩ := isPlain_iff.mp hplain
    rw [readMultiLiteral]
    · simp [guard, hplain]
    · exact hfeed
    · rintro _ rfl _
      exact absurd hcode (by decide)
    · rintro rest' rfl rfl
      exact hquotes (by simp)
  · simp [readMultiLiteral]

/-- Text over several lines is read back as it is, if it has no three quotes in a row. -/
theorem readMultiLiteral_text {rest : List Char} (hrest : rest.head? ≠ some '\'')
    {text : List Char} (hplain : ∀ c ∈ text, isPlain c = true ∨ c = '\n')
    (hrun : longestRun '\'' 0 text ≤ 2) :
    readMultiLiteral (text ++ '\'' :: '\'' :: '\'' :: rest) = some (text, rest) := by
  obtain ⟨hnone, hone, htwo⟩ := lastQuotes_of_head? hrest
  induction text with
  | nil => simp [readMultiLiteral, hnone]
  | cons c text ih =>
    by_cases hquotes : ['\'', '\'', '\''] <+: c :: text ++ '\'' :: '\'' :: '\'' :: rest
    · -- one or two quotes of the text before the closing ones
      rcases eq_of_quotes_prefix hrun hquotes with h | h | h
      · cases h
      · rw [h]
        simp [readMultiLiteral, hone]
      · rw [h]
        simp [readMultiLiteral, htwo]
    · rw [List.cons_append] at hquotes ⊢
      rw [readMultiLiteral_plain (hplain c List.mem_cons_self) _ hquotes,
        ih (fun d hd => hplain d (List.mem_cons_of_mem _ hd))
          (Nat.le_trans (longestRun_tail '\'' c text) hrun), before_some]

/-- A plain character stands for itself, unless it is the first of three quotes. -/
theorem readMultiBasic_plain {c : Char} (hplain : isPlain c = true) (hback : c ≠ '\\')
    (rest : List Char) (hquotes : ¬ ['"', '"', '"'] <+: c :: rest) :
    readMultiBasic false (c :: rest) = before c (readMultiBasic false rest) := by
  obtain ⟨hcode, hfeed⟩ := isPlain_iff.mp hplain
  rw [readMultiBasic]
  · simp [guard, hplain, hback]
  · exact hfeed
  · rintro _ rfl _
    exact absurd hcode (by decide)
  · rintro rest' rfl rfl
    exact hquotes (by simp)
  · exact fun _ _ _ _ _ h => absurd h hback
  · exact fun _ _ _ _ _ _ _ _ _ h => absurd h hback
  · exact fun _ _ h => absurd h hback

theorem readMultiBasic_short {e c : Char} (he : shortEscape? e = some c) (rest : List Char) :
    readMultiBasic false ('\\' :: e :: rest) = before c (readMultiBasic false rest) := by
  obtain ⟨hu, hU, hspace, hfeed, hreturn⟩ := shortEscape?_ne he
  have hend : endsLine (e :: rest) = false := by
    rw [endsLine, List.dropWhile_cons_of_neg (by simp [hspace])]
    simp [afterLineEnd?, hfeed, hreturn]
  simp [readMultiBasic, he, hu, hU, hend]

/-- A character is read back from its escape, over several lines too. -/
theorem readMultiBasic_escapeChar {c : Char} (hquote : c ≠ '"') (rest : List Char) :
    readMultiBasic false (escapeChar c ++ rest) = before c (readMultiBasic false rest) := by
  rcases escapeChar_cases c with ⟨e, hc, he⟩ | ⟨hc, hcode⟩ | ⟨hc, hplain, -, hback⟩
  · rw [hc]
    exact readMultiBasic_short he rest
  · rw [hc]
    simp [codeEscape, readMultiBasic, hexChar?_code hcode]
  · rw [hc]
    refine readMultiBasic_plain hplain hback rest fun hquotes => ?_
    exact hquote (List.cons_prefix_cons.mp hquotes).1.symm

/-- An escape starts with a character that ends neither text nor line. -/
theorem head?_escapeChar (c : Char) :
    ∃ d more, escapeChar c = d :: more ∧ d ≠ '"' ∧ d ≠ '\n' ∧ d ≠ '\r' := by
  rcases escapeChar_cases c with ⟨e, hc, -⟩ | ⟨hc, -⟩ | ⟨hc, hplain, hquote, -⟩
  · exact ⟨_, _, hc, by decide⟩
  · exact ⟨_, _, hc, by decide⟩
  · refine ⟨_, _, hc, hquote, (isPlain_iff.mp hplain).2, ?_⟩
    rintro rfl
    exact absurd hplain (by decide)

/-- The inside of a basic text starts with a quote only if the text does, and not after two. -/
theorem not_quote_prefix_escapeMulti {run : Nat} {c : Char} (h : c = '"' → run = 2)
    (more text tail : List Char) :
    ¬ '"' :: more <+: escapeMulti run (c :: text) ++ tail := by
  intro hprefix
  rw [escapeMulti] at hprefix
  -- a quote is escaped here, a line feed is none, and no escape starts with one
  split at hprefix
  · rename_i hquote
    rw [if_pos (h hquote)] at hprefix
    exact absurd (List.cons_prefix_cons.mp hprefix).1 (by decide)
  · rename_i hquote
    split at hprefix
    · exact absurd (List.cons_prefix_cons.mp hprefix).1 (by decide)
    · obtain ⟨d, rest, hd, hne, -⟩ := head?_escapeChar c
      rw [hd] at hprefix
      exact hne (List.cons_prefix_cons.mp hprefix).1.symm

/-- The inside of a basic text starts with three quotes only together with the closing ones. -/
theorem eq_of_quotes_prefix_escapeMulti {run : Nat} (hrun : run ≤ 2) {text tail : List Char}
    (hquotes : ['"', '"', '"'] <+: escapeMulti run text ++ tail) :
    (text = [] ∨ text = ['"'] ∨ text = ['"', '"']) ∧ escapeMulti run text = text := by
  -- one quote of the text after the other, of which the third would be escaped
  rcases text with - | ⟨a, text⟩
  · exact ⟨.inl rfl, rfl⟩
  by_cases ha : a = '"' → run = 2
  · exact absurd hquotes (not_quote_prefix_escapeMulti ha _ _ _)
  obtain ⟨rfl, hrun'⟩ := Classical.not_imp.mp ha
  have hescape : escapeMulti run ('"' :: text) = '"' :: escapeMulti (run + 1) text := by
    simp [escapeMulti, hrun']
  rw [hescape] at hquotes ⊢
  replace hquotes := (List.cons_prefix_cons.mp hquotes).2
  rcases text with - | ⟨b, text⟩
  · exact ⟨.inr (.inl rfl), rfl⟩
  by_cases hb : b = '"' → run + 1 = 2
  · exact absurd hquotes (not_quote_prefix_escapeMulti hb _ _ _)
  obtain ⟨rfl, hrun''⟩ := Classical.not_imp.mp hb
  obtain rfl : run = 0 := by omega
  have hescape' : escapeMulti (0 + 1) ('"' :: text) = '"' :: escapeMulti 2 text := rfl
  rw [hescape'] at hquotes ⊢
  replace hquotes := (List.cons_prefix_cons.mp hquotes).2
  rcases text with - | ⟨c, text⟩
  · exact ⟨.inr (.inr rfl), rfl⟩
  · exact absurd hquotes (not_quote_prefix_escapeMulti (fun _ => rfl) _ _ _)

/-- Text over several lines is read back from its escapes. -/
theorem readMultiBasic_escape {rest : List Char} (hrest : rest.head? ≠ some '"')
    {run : Nat} (hrun : run ≤ 2) (text : List Char) :
    readMultiBasic false (escapeMulti run text ++ '"' :: '"' :: '"' :: rest) =
      some (text, rest) := by
  obtain ⟨hnone, hone, htwo⟩ := lastQuotes_of_head? hrest
  -- `run` quotes of the text are read already; the third in a row is escaped
  induction text generalizing run with
  | nil => simp [escapeMulti, readMultiBasic, hnone]
  | cons c text ih =>
    by_cases hquotes :
        ['"', '"', '"'] <+: escapeMulti run (c :: text) ++ '"' :: '"' :: '"' :: rest
    · -- one or two quotes of the text before the closing ones
      obtain ⟨h, hescape⟩ := eq_of_quotes_prefix_escapeMulti hrun hquotes
      rw [hescape]
      rcases h with h | h | h
      · cases h
      · rw [h]
        simp [readMultiBasic, hone]
      · rw [h]
        simp [readMultiBasic, htwo]
    · by_cases hquote : c = '"'
      · subst hquote
        by_cases htwo' : run = 2
        · -- the third quote in a row is escaped
          have hescape : escapeMulti run ('"' :: text) = '\\' :: '"' :: escapeMulti 0 text := by
            simp [escapeMulti, htwo']
          rw [hescape, List.cons_append, List.cons_append, readMultiBasic_short (c := '"') rfl,
            ih (Nat.zero_le 2), before_some]
        · have hescape : escapeMulti run ('"' :: text) = '"' :: escapeMulti (run + 1) text := by
            simp [escapeMulti, htwo']
          rw [hescape, List.cons_append] at hquotes ⊢
          rw [readMultiBasic_plain (by decide) (by decide) _ hquotes, ih (by omega), before_some]
      · by_cases hfeed : c = '\n'
        · subst hfeed
          have htext := ih (Nat.zero_le 2)
          simp [escapeMulti, readMultiBasic, htext]
        · have hescape : escapeMulti run (c :: text) = escapeChar c ++ escapeMulti 0 text := by
            simp [escapeMulti, hquote, hfeed]
          rw [hescape, List.append_assoc, readMultiBasic_escapeChar hquote, ih (Nat.zero_le 2),
            before_some]

/-! ## Any form -/

/-- Which texts a form can hold. -/
def Style.Holds (text : List Char) : Style → Prop
  | .basic => True
  | .literal => '\'' ∉ text ∧ ∀ c ∈ text, isPlain c = true
  | .multiBasic => True
  | .multiLiteral => longestRun '\'' 0 text ≤ 2 ∧ ∀ c ∈ text, isPlain c = true ∨ c = '\n'

/-- Whether a text may stand right behind the opening of a form over several lines: a line feed
at its front is one of `text`, which has its own then, and it does not start with a return. -/
def Opens (text body : List Char) : Prop :=
  ∀ d ∈ body.head?, (d = '\n' → '\n' ∈ text) ∧ d ≠ '\r'

/-- A form over several lines starts with its text, a line feed before it left out. -/
theorem dropLineEnd_opening {text body : List Char} (h : Opens text body) :
    dropLineEnd ((if text.contains '\n' then ['\n'] else []) ++ body) = body := by
  split
  · rfl
  · rename_i hnone
    cases body with
    | nil => rfl
    | cons c body =>
      obtain ⟨hfeed, hreturn⟩ := h c rfl
      have hc : c ≠ '\n' := fun he => hnone (by simpa using hfeed he)
      simp [dropLineEnd, afterLineEnd?, hc, hreturn]

theorem opens_escapeMulti (text rest : List Char) :
    Opens text (escapeMulti 0 text ++ '"' :: rest) := by
  intro d hd
  cases text with
  | nil =>
    cases hd
    decide
  | cons c text =>
    rw [escapeMulti] at hd
    split at hd
    · rw [if_neg (by decide)] at hd
      cases hd
      exact ⟨fun he => absurd he (by decide), by decide⟩
    · split at hd
      · rename_i hfeed
        cases hd
        exact ⟨fun _ => hfeed ▸ List.mem_cons_self, by decide⟩
      · obtain ⟨e, more, he, -, hfeed, hreturn⟩ := head?_escapeChar c
        rw [he] at hd
        cases hd
        exact ⟨fun he => absurd he hfeed, hreturn⟩

theorem opens_plain {text : List Char} (hplain : ∀ c ∈ text, isPlain c = true ∨ c = '\n')
    (rest : List Char) : Opens text (text ++ '\'' :: rest) := by
  intro d hd
  cases text with
  | nil =>
    cases hd
    decide
  | cons c text =>
    cases hd
    refine ⟨fun he => he ▸ List.mem_cons_self, ?_⟩
    rintro rfl
    exact absurd (hplain '\r' List.mem_cons_self) (by decide)

theorem readString_basic {cs : List Char} (h : ¬ ['"', '"'] <+: cs) :
    readString ('"' :: cs) = readBasic cs := by
  rw [readString]
  rintro rest rfl
  exact h (by simp)

theorem readString_literal {cs : List Char} (h : ¬ ['\'', '\''] <+: cs) :
    readString ('\'' :: cs) = readLiteral cs := by
  rw [readString]
  rintro rest rfl
  exact h (by simp)

/-- A quote that closes an empty text is not followed by another one. -/
theorem not_quotes_prefix {quote : Char} {rest : List Char} (h : rest.head? ≠ some quote) :
    ¬ [quote, quote] <+: quote :: rest := by
  intro hprefix
  obtain ⟨more, rfl⟩ := (List.cons_prefix_cons.mp hprefix).2
  exact h rfl

/-- **Quoted text is read back**, whatever the form, if the form can hold it. -/
theorem readString_quoted {style : Style} {text rest : List Char} (h : style.Holds text)
    (hdouble : rest.head? ≠ some '"') (hsingle : rest.head? ≠ some '\'') :
    readString (quoted style text ++ rest) = some (text, rest) := by
  cases style with
  | basic =>
    have hprefix : ¬ ['"', '"'] <+: text.flatMap escapeChar ++ '"' :: rest := by
      cases text with
      | nil => exact not_quotes_prefix hdouble
      | cons c text =>
        obtain ⟨d, more, hd, hne, -⟩ := head?_escapeChar c
        rw [List.flatMap_cons, hd]
        exact fun hprefix => hne (List.cons_prefix_cons.mp hprefix).1.symm
    have hread := (readString_basic hprefix).trans (readBasic_escape text rest)
    simpa [quoted] using hread
  | literal =>
    obtain ⟨hquote, hplain⟩ := h
    have hprefix : ¬ ['\'', '\''] <+: text ++ '\'' :: rest := by
      cases text with
      | nil => exact not_quotes_prefix hsingle
      | cons c text =>
        intro hprefix
        exact hquote ((List.cons_prefix_cons.mp hprefix).1 ▸ List.mem_cons_self)
    have hread := (readString_literal hprefix).trans (readLiteral_text hplain hquote rest)
    simpa [quoted] using hread
  | multiBasic =>
    have hread := readMultiBasic_escape hdouble (Nat.zero_le 2) text
    rw [← dropLineEnd_opening (opens_escapeMulti text ('"' :: '"' :: rest))] at hread
    simpa [quoted, readString] using hread
  | multiLiteral =>
    obtain ⟨hrun, hplain⟩ := h
    have hread := readMultiLiteral_text hsingle hplain hrun
    rw [← dropLineEnd_opening (opens_plain hplain ('\'' :: '\'' :: rest))] at hread
    simpa [quoted, readString] using hread

/-- A text without runs of a quote has none of it. -/
theorem not_mem_of_longestRun {quote : Char} {text : List Char}
    (h : longestRun quote 0 text = 0) : quote ∉ text := by
  induction text with
  | nil => simp
  | cons c text ih =>
    have htail := longestRun_tail quote c text
    rw [List.mem_cons, not_or]
    refine ⟨?_, ih (by omega)⟩
    rintro rfl
    have hle := le_longestRun quote text 1
    simp [longestRun] at h
    omega

/-- The form that is chosen can hold the text. -/
theorem holds_styleOf (text : List Char) : (styleOf text).Holds text := by
  have hplain : text.any needsCode = false → ∀ c ∈ text, isPlain c = true ∨ c = '\n' := by
    intro hcode c hc
    by_cases hfeed : c = '\n'
    · exact .inr hfeed
    · exact .inl (isPlain_iff.mpr ⟨by simpa using List.any_eq_false.mp hcode c hc, hfeed⟩)
  rw [styleOf]
  -- only the literal forms ask for something, and they are chosen where it holds
  split
  · trivial
  split
  · rename_i hliteral
    simp only [Bool.and_eq_true, Bool.not_eq_true', decide_eq_true_eq] at hliteral
    obtain ⟨⟨hcode, hsingles⟩, hnewline⟩ := hliteral
    refine ⟨not_mem_of_longestRun hsingles, fun c hc => (hplain hcode c hc).resolve_right ?_⟩
    rintro rfl
    simp [hc] at hnewline
  split
  · trivial
  split
  · rename_i hliteral
    simp only [Bool.and_eq_true, Bool.not_eq_true', decide_eq_true_eq] at hliteral
    exact ⟨hliteral.2, hplain hliteral.1⟩
  split <;> trivial

/-- **Strings are read back** in whatever form they are written. -/
theorem readString_writeString (s : String) {rest : List Char} (hdouble : rest.head? ≠ some '"')
    (hsingle : rest.head? ≠ some '\'') :
    readString ((writeString s).toList ++ rest) = some (s.toList, rest) := by
  rw [writeString, String.toList_ofList]
  exact readString_quoted (holds_styleOf s.toList) hdouble hsingle

/-- A string starts with a quote. -/
theorem exists_writeString (s : String) :
    ∃ quote body, (writeString s).toList = quote :: body ∧ (quote = '"' ∨ quote = '\'') := by
  rw [writeString, String.toList_ofList]
  cases styleOf s.toList
  · exact ⟨_, _, rfl, .inl rfl⟩
  · exact ⟨_, _, rfl, .inr rfl⟩
  · exact ⟨_, _, rfl, .inl rfl⟩
  · exact ⟨_, _, rfl, .inr rfl⟩

end Checkup.Toml
