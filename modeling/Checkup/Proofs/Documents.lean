import Checkup.Proofs.Digits
import Checkup.Proofs.Quoting
import Checkup.Toml.Reader

/-!
# Documents are read back

A document of plain lines: headers, and keys with a truth value, a text or a list of texts.
Every part is read up to the character where the next one starts.

* `Toml.readSimpleKey_writeKey`, `Toml.readKey_dotted` — keys, also those that look like paths.
* `Toml.readItems_items`, `Toml.readValue_simple` — values.
* `Toml.readLines_text` — lines. Of the loop's count each uses one.
* `Toml.read_text` — a whole document, up to the sections that its lines make.
-/

namespace Checkup.Toml

open Text (takeWhile_dropWhile_append)

/-! ## Keys -/

/-- A quote is no character of a bare key. -/
theorem isBareKey_ne {c : Char} (h : isBareKey c = true) : c ≠ '"' ∧ c ≠ '\'' := by
  constructor <;> rintro rfl <;> exact absurd h (by decide)

/-- A bare key ends where no further character can be one of it. -/
theorem readSimpleKey_bare {text rest : List Char} (hne : text ≠ [])
    (hbare : text.all isBareKey = true) (hrest : ∀ c ∈ rest.head?, isBareKey c = false) :
    readSimpleKey (text ++ rest) = some (String.ofList text, rest) := by
  have hall := List.all_eq_true.mp hbare
  obtain ⟨htake, hdrop⟩ := takeWhile_dropWhile_append hall hrest
  have hfirst : ∀ quote more, text ++ rest = quote :: more → quote ≠ '"' ∧ quote ≠ '\'' := by
    intro quote more h
    cases text with
    | nil => exact absurd rfl hne
    | cons c text =>
      cases h
      exact isBareKey_ne (hall _ List.mem_cons_self)
  rw [readSimpleKey]
  · simp [htake, hdrop, hne]
  · exact fun more h => (hfirst _ _ h).1 rfl
  · exact fun more h => (hfirst _ _ h).2 rfl

/-- A quoted key stays on one line, and is taken as it is only if nothing in it is special. -/
theorem keyStyleOf_cases (text : List Char) :
    keyStyleOf text = .basic ∨ keyStyleOf text = .literal ∧ Style.literal.Holds text := by
  rw [keyStyleOf]
  split
  · exact .inl rfl
  split
  · rename_i hliteral
    simp only [Bool.and_eq_true, Bool.not_eq_true', Bool.or_eq_false_iff] at hliteral
    obtain ⟨⟨hcode, hfeed⟩, hquote⟩ := hliteral
    refine .inr ⟨rfl, by simpa using hquote, fun c hc => isPlain_iff.mpr ⟨?_, ?_⟩⟩
    · simpa using List.any_eq_false.mp hcode c hc
    · rintro rfl
      simp [hc] at hfeed
  · exact .inl rfl

/-- **Keys are read back**, bare or quoted, whatever dots, quotes and brackets they hold. -/
theorem readSimpleKey_writeKey (key : String) {rest : List Char}
    (hrest : ∀ c ∈ rest.head?, isBareKey c = false) :
    readSimpleKey ((writeKey key).toList ++ rest) = some (key, rest) := by
  rw [writeKey]
  split
  · rename_i hbare
    simp only [ne_eq, Bool.and_eq_true, decide_eq_true_eq] at hbare
    rw [readSimpleKey_bare hbare.1 hbare.2 hrest, String.ofList_toList]
  · rw [String.toList_ofList]
    rcases keyStyleOf_cases key.toList with h | ⟨h, hquote, hplain⟩
    · rw [h]
      simp [quoted, readSimpleKey, readBasic_escape]
    · rw [h]
      simp [quoted, readSimpleKey, readLiteral_text hplain hquote]

/-- A character that starts something on its line: no blank, no comment and no line end. -/
def IsSolid (c : Char) : Prop := isSpace c = false ∧ c ≠ '#' ∧ c ≠ '\n' ∧ c ≠ '\r'

instance (c : Char) : Decidable (IsSolid c) := inferInstanceAs (Decidable (_ ∧ _))

/-- A key starts with a quote, or with a character of a bare key. -/
theorem exists_writeKey (key : String) :
    ∃ c body, (writeKey key).toList = c :: body ∧
      (isBareKey c = true ∨ c = '"' ∨ c = '\'') := by
  rw [writeKey]
  split
  · rename_i hbare
    simp only [ne_eq, Bool.and_eq_true, decide_eq_true_eq] at hbare
    obtain ⟨c, body, hkey⟩ := List.exists_cons_of_ne_nil hbare.1
    refine ⟨c, body, hkey, .inl (List.all_eq_true.mp hbare.2 c ?_)⟩
    rw [hkey]
    exact List.mem_cons_self
  · rw [String.toList_ofList]
    rcases keyStyleOf_cases key.toList with h | ⟨h, -⟩
    · rw [h]
      exact ⟨_, _, rfl, .inr (.inl rfl)⟩
    · rw [h]
      exact ⟨_, _, rfl, .inr (.inr rfl)⟩

/-- What starts a key starts something on its line, but no header. -/
theorem isSolid_of_key {c : Char} (h : isBareKey c = true ∨ c = '"' ∨ c = '\'') :
    IsSolid c ∧ c ≠ '[' := by
  have hne : ∀ d, ¬ (isBareKey d = true ∨ d = '"' ∨ d = '\'') → c ≠ d := by
    rintro d hd rfl
    exact hd h
  refine ⟨⟨?_, hne _ (by decide), hne _ (by decide), hne _ (by decide)⟩, hne _ (by decide)⟩
  rw [isSpace, Bool.or_eq_false_iff, decide_eq_false_iff_not, decide_eq_false_iff_not]
  exact ⟨hne _ (by decide), hne _ (by decide)⟩

/-- Blanks are skipped up to what starts something. -/
theorem skipSpaces_solid {c : Char} (h : IsSolid c) (rest : List Char) :
    skipSpaces (c :: rest) = c :: rest := by
  simp [skipSpaces, h.1]

theorem skipSpaces_writeKey (key : String) (rest : List Char) :
    skipSpaces ((writeKey key).toList ++ rest) = (writeKey key).toList ++ rest := by
  obtain ⟨c, body, hkey, hc⟩ := exists_writeKey key
  rw [hkey]
  exact skipSpaces_solid (isSolid_of_key hc).1 _

/-- A dotted key as it is written. -/
def dotted (path : List String) : List Char :=
  ['.'].intercalate (path.map fun key => (writeKey key).toList)

@[simp] theorem dotted_singleton (key : String) : dotted [key] = (writeKey key).toList := by
  simp [dotted]

@[simp] theorem dotted_cons_cons (key next : String) (path : List String) :
    dotted (key :: next :: path) = (writeKey key).toList ++ '.' :: dotted (next :: path) := by
  simp [dotted]

/-- Every part of a dotted key takes a character. -/
theorem length_le_dotted (path : List String) : path.length ≤ (dotted path).length := by
  induction path with
  | nil => exact Nat.zero_le _
  | cons key path ih =>
    obtain ⟨c, body, hkey, -⟩ := exists_writeKey key
    cases path with
    | nil => simp [hkey]
    | cons next path =>
      rw [dotted_cons_cons, hkey]
      simp only [List.length_cons, List.length_append] at ih ⊢
      omega

/-- A dotted key starts no array of tables. -/
theorem exists_dotted {path : List String} (hne : path ≠ []) :
    ∃ c body, dotted path = c :: body ∧ c ≠ '[' := by
  rcases path with - | ⟨key, path⟩
  · exact absurd rfl hne
  · obtain ⟨c, body, hkey, hc⟩ := exists_writeKey key
    cases path with
    | nil => exact ⟨c, body, by simp [hkey], (isSolid_of_key hc).2⟩
    | cons next path =>
      exact ⟨c, _, by rw [dotted_cons_cons, hkey, List.cons_append], (isSolid_of_key hc).2⟩

/-- A dotted key is read up to what is no key, and no further dot. -/
theorem readDotted_dotted {rest : List Char} (hrest : ∀ c ∈ rest.head?, isBareKey c = false)
    (hdot : (skipSpaces rest).head? ≠ some '.') {path : List String} (hne : path ≠ [])
    {n : Nat} (hn : path.length ≤ n) :
    readDotted n (dotted path ++ rest) = some (path, skipSpaces rest) := by
  induction path generalizing n with
  | nil => exact absurd rfl hne
  | cons key path ih =>
    obtain ⟨n, rfl⟩ := Nat.exists_eq_add_of_le' (Nat.le_trans (Nat.succ_le_succ (Nat.zero_le _)) hn)
    cases path with
    | nil =>
      -- the last part: no dot follows
      rw [dotted_singleton, readDotted, skipSpaces_writeKey, readSimpleKey_writeKey key hrest]
      cases hafter : skipSpaces rest with
      | nil => simp [hafter]
      | cons c after =>
        have hc : c ≠ '.' := by
          rintro rfl
          exact hdot (hafter ▸ rfl)
        simp [hafter, hc]
    | cons next path =>
      have hfirst : ∀ c ∈ ('.' :: (dotted (next :: path) ++ rest)).head?, isBareKey c = false := by
        rintro c ⟨⟩
        decide
      have hread := ih (List.cons_ne_nil _ _) (Nat.le_of_succ_le_succ hn)
      rw [dotted_cons_cons, List.append_assoc, readDotted, skipSpaces_writeKey, List.cons_append,
        readSimpleKey_writeKey key hfirst]
      simp [skipSpaces_solid (c := '.') (by decide), hread]

/-- **Dotted keys are read back**, if they are not too long. -/
theorem readKey_dotted {rest : List Char} (hrest : ∀ c ∈ rest.head?, isBareKey c = false)
    (hdot : (skipSpaces rest).head? ≠ some '.') {path : List String} (hne : path ≠ [])
    (hdepth : path.length < depthLimit) :
    readKey (dotted path ++ rest) = some (path, skipSpaces rest) := by
  have hlength : path.length ≤ (dotted path ++ rest).length := by
    have hle := length_le_dotted path
    rw [List.length_append]
    omega
  rw [readKey, readDotted_dotted hrest hdot hne hlength]
  simp [Option.filter, hdepth]

/-! ## Values -/

/-- The values of plain lines. -/
inductive Simple where
  /-- a truth value -/
  | flag (b : Bool)
  /-- a text -/
  | text (s : String)
  /-- a list of texts -/
  | texts (items : List String)

/-- The value that is meant. -/
def Simple.value : Simple → Value
  | flag b => .boolean b
  | text s => .string s
  | texts items => .array (items.map .string)

/-- A value as it is written. -/
def Simple.write : Simple → String
  | flag b => if b then "true" else "false"
  | text s => writeString s
  | texts items => writeStrings items

/-- Where a line may end. -/
def AtEnd (rest : List Char) : Prop := ∀ c ∈ rest.head?, c = '\n'

theorem AtEnd.head?_ne {rest : List Char} (h : AtEnd rest) {c : Char} (hc : c ≠ '\n') :
    rest.head? ≠ some c := fun hrest => hc (h c hrest)

/-- The items of an array as they are written, up to the closing bracket. -/
def itemChars : List String → List Char
  | [] => [']']
  | [item] => (writeString item).toList ++ [']']
  | item :: next :: items => (writeString item).toList ++ ',' :: ' ' :: itemChars (next :: items)

theorem toList_writeStrings (items : List String) :
    (writeStrings items).toList = '[' :: itemChars items := by
  have hitems : ∀ items : List String,
      (", ".intercalate (items.map writeString)).toList ++ [']'] = itemChars items := by
    intro items
    induction items with
    | nil => rfl
    | cons item items ih =>
      cases items with
      | nil => simp [itemChars]
      | cons next items =>
        rw [itemChars, ← ih]
        simp
  rw [writeStrings, ← hitems]
  simp

/-- Blank lines are skipped up to what starts something. -/
theorem skipLines_solid {c : Char} (h : IsSolid c) (n : Nat) (rest : List Char) :
    skipLines n (c :: rest) = c :: rest := by
  obtain ⟨hspace, hhash, hfeed, hreturn⟩ := h
  cases n with
  | zero => rfl
  | succ n => simp [skipLines, skipSpaces, hspace, hhash, afterLineEnd?, hfeed, hreturn]

theorem skipLines_space {c : Char} (h : IsSolid c) (n : Nat) (rest : List Char) :
    skipLines (n + 1) (' ' :: c :: rest) = c :: rest := by
  obtain ⟨hspace, hhash, hfeed, hreturn⟩ := h
  have hblank : isSpace ' ' = true := rfl
  simp [skipLines, skipSpaces, hblank, hspace, hhash, afterLineEnd?, hfeed, hreturn]

/-- A string value is read back. -/
theorem readValue_string (s : String) {rest : List Char} (hdouble : rest.head? ≠ some '"')
    (hsingle : rest.head? ≠ some '\'') (n depth : Nat) :
    readValue (n + 1) depth ((writeString s).toList ++ rest) = some (.string s, rest) := by
  have hread := readString_writeString s hdouble hsingle
  obtain ⟨quote, body, hs, hquote⟩ := exists_writeString s
  rw [hs, List.cons_append] at hread ⊢
  rcases hquote with rfl | rfl
  · simp [readValue, hread]
  · simp [readValue, hread]

/-- A quote starts something on its line. -/
theorem isSolid_quote {quote : Char} (h : quote = '"' ∨ quote = '\'') : IsSolid quote := by
  rcases h with rfl | rfl <;> decide

theorem exists_itemChars (items : List String) (rest : List Char) :
    ∃ c body, itemChars items ++ rest = c :: body ∧ IsSolid c := by
  rcases items with - | ⟨item, items⟩
  · exact ⟨_, _, rfl, by decide⟩
  · obtain ⟨quote, body, hitem, hquote⟩ := exists_writeString item
    cases items with
    | nil => exact ⟨quote, body ++ [']'] ++ rest, by simp [itemChars, hitem], isSolid_quote hquote⟩
    | cons next items =>
      exact ⟨quote, body ++ ',' :: ' ' :: itemChars (next :: items) ++ rest,
        by simp [itemChars, hitem], isSolid_quote hquote⟩

/-- The blank behind a comma is skipped. -/
theorem readItems_space (n depth : Nat) (items : List String) (rest : List Char) :
    readItems n depth (' ' :: (itemChars items ++ rest)) =
      readItems n depth (itemChars items ++ rest) := by
  obtain ⟨c, body, hitems, hc⟩ := exists_itemChars items rest
  rw [hitems]
  cases n with
  | zero => rw [readItems, readItems]
  | succ n =>
    rw [readItems, readItems, List.length_cons, skipLines_space hc, skipLines_solid hc]

/-- An item is read up to the comma or the bracket behind it. -/
theorem readItems_item (item : String) {c : Char} (hsolid : IsSolid c) (hdouble : c ≠ '"')
    (hsingle : c ≠ '\'') (n depth : Nat) (rest : List Char) :
    readItems (n + 2) depth ((writeString item).toList ++ c :: rest) =
      match c :: rest with
      | ',' :: rest =>
        (readItems (n + 1) depth rest).bind fun r => some (.string item :: r.1, r.2)
      | ']' :: rest => some ([.string item], rest)
      | _ => none := by
  have hread : readValue (n + 1) depth ((writeString item).toList ++ c :: rest) =
      some (.string item, c :: rest) :=
    readValue_string item (by simpa using hdouble) (by simpa using hsingle) n depth
  obtain ⟨quote, body, hitem, hquote⟩ := exists_writeString item
  rw [hitem, List.cons_append] at hread ⊢
  have hbracket : quote ≠ ']' := by
    rcases hquote with rfl | rfl <;> decide
  rw [readItems, skipLines_solid (isSolid_quote hquote)]
  simp only [List.head?_cons, Option.some.injEq, hbracket, if_false, hread, Option.bind_eq_bind,
    Option.bind_some, skipLines_solid hsolid]
  rfl

/-- The items of an array are read back. One of the count is used for each item, and one more
for the value of the last. -/
theorem readItems_items (depth : Nat) (rest : List Char) (items : List String) :
    ∀ {n : Nat}, items.length < n →
      readItems n depth (itemChars items ++ rest) = some (items.map .string, rest) := by
  induction items with
  | nil =>
    intro n hn
    obtain ⟨n, rfl⟩ := Nat.exists_eq_add_of_le' (Nat.succ_le_of_lt hn)
    simp [itemChars, readItems, skipLines_solid (c := ']') (by decide)]
  | cons item items ih =>
    intro n hn
    obtain ⟨n, rfl⟩ := Nat.exists_eq_add_of_le' (Nat.le_trans (Nat.le_add_left 2 _) hn)
    cases items with
    | nil =>
      rw [itemChars, List.append_assoc]
      exact readItems_item item (by decide) (by decide) (by decide) n depth rest
    | cons next items =>
      have hread := ih (Nat.lt_of_succ_lt_succ hn)
      rw [itemChars, List.append_assoc, List.cons_append, List.cons_append,
        readItems_item item (by decide) (by decide) (by decide)]
      simp [readItems_space, hread]

theorem length_lt_itemChars (items : List String) : items.length < (itemChars items).length := by
  induction items with
  | nil => exact Nat.zero_lt_one
  | cons item items ih =>
    obtain ⟨quote, body, hitem, -⟩ := exists_writeString item
    cases items with
    | nil => simp [itemChars, hitem]
    | cons next items =>
      rw [itemChars, hitem]
      simp only [List.length_cons, List.length_append] at ih ⊢
      omega

/-- A word is read up to the end of its line. -/
theorem readScalar_word {word rest : List Char} {v : Value} (hall : word.all isLexeme = true)
    (hdate : readDateTime word = none) (hv : scalarOf word = some v) (hrest : AtEnd rest) :
    readScalar (word ++ rest) = some (v, rest) := by
  have hend : ∀ c ∈ rest.head?, isLexeme c = false := by
    intro c hc
    rw [hrest c hc]
    decide
  obtain ⟨htake, hdrop⟩ := takeWhile_dropWhile_append (List.all_eq_true.mp hall) hend
  rw [readScalar, splitLexeme, htake, hdrop, hdate]
  simp [hv]

/-- **Values are read back**, up to the end of their line. -/
theorem readValue_simple {rest : List Char} (hrest : AtEnd rest) (v : Simple) {n depth : Nat}
    (hn : v.write.toList.length < n) (hdepth : 0 < depth) :
    readValue n depth (v.write.toList ++ rest) = some (v.value, rest) := by
  obtain ⟨n, rfl⟩ := Nat.exists_eq_add_of_le' (Nat.lt_of_le_of_lt (Nat.zero_le _) hn)
  cases v with
  | flag b =>
    cases b
    · have hread : readScalar ("false".toList ++ rest) = some (.boolean false, rest) :=
        readScalar_word (by decide) rfl rfl hrest
      simpa [readValue, Simple.write, Simple.value] using hread
    · have hread : readScalar ("true".toList ++ rest) = some (.boolean true, rest) :=
        readScalar_word (by decide) rfl rfl hrest
      simpa [readValue, Simple.write, Simple.value] using hread
  | text s =>
    exact readValue_string s (hrest.head?_ne (by decide)) (hrest.head?_ne (by decide)) n depth
  | texts items =>
    obtain ⟨depth, rfl⟩ := Nat.exists_eq_add_of_le' hdepth
    have hlength := length_lt_itemChars items
    rw [Simple.write, toList_writeStrings, List.length_cons] at hn
    have hread := readItems_items depth rest items (n := n) (by omega)
    rw [Simple.write, toList_writeStrings]
    simp [readValue, hread, Simple.value]

/-- A value starts something on its line. -/
theorem exists_write (v : Simple) : ∃ c body, v.write.toList = c :: body ∧ IsSolid c := by
  cases v with
  | flag b =>
    cases b
    · exact ⟨_, _, rfl, by decide⟩
    · exact ⟨_, _, rfl, by decide⟩
  | text s =>
    obtain ⟨quote, body, hs, hquote⟩ := exists_writeString s
    exact ⟨quote, body, hs, isSolid_quote hquote⟩
  | texts items => exact ⟨_, _, toList_writeStrings items, by decide⟩

/-! ## Lines -/

/-- A plain line. -/
inductive Written where
  /-- nothing -/
  | blank
  /-- the header of a table -/
  | header (path : List String)
  /-- a key and its value -/
  | pair (key : String) (value : Simple)

namespace Written

/-- What a line says. -/
def line? : Written → Option Line
  | blank => none
  | header path => some (.header .table path)
  | pair key value => some (.pair [key] value.value)

/-- A line as it is written. -/
def chars : Written → List Char
  | blank => []
  | header path => '[' :: dotted path ++ [']']
  | pair key value => (writeKey key).toList ++ ' ' :: '=' :: ' ' :: value.write.toList

/-- Headers name something, and not too deep. -/
def Fits : Written → Prop
  | header path => path ≠ [] ∧ path.length < depthLimit
  | _ => True

instance : (line : Written) → Decidable line.Fits
  | blank => .isTrue trivial
  | header _ => inferInstanceAs (Decidable (_ ∧ _))
  | pair _ _ => .isTrue trivial

/-- Lines as they are written, one below the other. -/
def text (lines : List Written) : List Char := ['\n'].intercalate (lines.map chars)

@[simp] theorem text_singleton (line : Written) : text [line] = line.chars := by
  simp [text]

@[simp] theorem text_cons_cons (line next : Written) (lines : List Written) :
    text (line :: next :: lines) = line.chars ++ '\n' :: text (next :: lines) := by
  simp [text]

/-- Lines below other lines start on a line of their own. -/
theorem text_append {above below : List Written} (habove : above ≠ []) (hbelow : below ≠ []) :
    text (above ++ below) = text above ++ '\n' :: text below := by
  obtain ⟨next, below, rfl⟩ := List.exists_cons_of_ne_nil hbelow
  induction above with
  | nil => exact absurd rfl habove
  | cons line above ih =>
    cases above with
    | nil => simp
    | cons second above =>
      have hrest := ih (List.cons_ne_nil _ _)
      rw [List.cons_append] at hrest
      rw [List.cons_append, List.cons_append, text_cons_cons, hrest, text_cons_cons,
        List.append_assoc, List.cons_append]

/-- Groups of lines, one below the other. -/
theorem text_flatMap {α : Type} {group : α → List Written} (h : ∀ a, group a ≠ [])
    (as : List α) :
    text (as.flatMap group) = ['\n'].intercalate (as.map fun a => text (group a)) := by
  induction as with
  | nil => rfl
  | cons a as ih =>
    cases as with
    | nil => simp
    | cons b as =>
      have hne : (b :: as).flatMap group ≠ [] := by simp [h b]
      rw [List.flatMap_cons, text_append (h a) hne, ih, List.map_cons, List.map_cons,
        List.map_cons, List.intercalate_cons_cons, List.append_assoc]
      rfl

end Written

/-- A header is read back. -/
theorem readHeader_chars {path : List String} (h : (Written.header path).Fits)
    (rest : List Char) :
    readHeader ((Written.header path).chars ++ rest) = some (.header .table path, rest) := by
  obtain ⟨hne, hdepth⟩ := h
  have hbare : ∀ c ∈ (']' :: rest).head?, isBareKey c = false := by
    rintro c ⟨⟩
    decide
  have hskip : skipSpaces (']' :: rest) = ']' :: rest := skipSpaces_solid (by decide) rest
  have hkey := readKey_dotted hbare (by simp [hskip]) hne hdepth
  rw [hskip] at hkey
  have hchars : (Written.header path).chars ++ rest = '[' :: (dotted path ++ ']' :: rest) := by
    simp [Written.chars]
  rw [hchars]
  obtain ⟨c, body, hpath, hc⟩ := exists_dotted hne
  rw [hpath, List.cons_append] at hkey ⊢
  rw [readHeader]
  · simp [hkey, skipChar]
  · rintro more h
    exact hc (List.cons.inj h).1

/-- A key and its value are read back. -/
theorem readPair_chars (key : String) (v : Simple) {rest : List Char} (hrest : AtEnd rest) :
    readPair ((Written.pair key v).chars ++ rest) = some (.pair [key] v.value, rest) := by
  have hchars : (Written.pair key v).chars ++ rest =
      dotted [key] ++ ' ' :: '=' :: ' ' :: (v.write.toList ++ rest) := by
    simp [Written.chars]
  obtain ⟨c, body, hv, hc⟩ := exists_write v
  have hskip : skipSpaces (' ' :: (v.write.toList ++ rest)) = v.write.toList ++ rest := by
    have hsolid := skipSpaces_solid hc (body ++ rest)
    rw [hv, List.cons_append]
    exact hsolid
  have hequal : ∀ text, skipSpaces (' ' :: '=' :: text) = '=' :: text := fun _ => rfl
  have hbare : ∀ c ∈ (' ' :: '=' :: ' ' :: (v.write.toList ++ rest)).head?,
      isBareKey c = false := by
    rintro c ⟨⟩
    decide
  have hkey := readKey_dotted hbare (by simp [hequal]) (List.cons_ne_nil key [])
    (by simp [depthLimit])
  have hcount : v.write.toList.length < 2 * (' ' :: (v.write.toList ++ rest)).length + 2 := by
    simp only [List.length_cons, List.length_append]
    omega
  have hdepth : 0 < depthLimit - 1 := by decide
  have hvalue := readValue_simple hrest v hcount hdepth
  rw [hchars, readPair, hkey, hequal]
  simp only [Option.bind_eq_bind, Option.bind_some, skipChar, if_true, hskip, hvalue]
  rfl

/-- A line is read, and then the lines below it. -/
theorem readLines_cons {c : Char} {body rest : List Char} {said : Line} (hc : IsSolid c)
    (hread : (if c = '[' then readHeader (c :: body) else readPair (c :: body)) =
      some (said, rest)) (n : Nat) :
    readLines (n + 1) (c :: body) =
      (endLine rest).bind fun rest =>
        (readLines n rest).bind fun lines => some (said :: lines) := by
  have hhash : c ≠ '#' := hc.2.1
  rw [readLines, skipLines_solid hc]
  by_cases hbracket : c = '['
  · subst hbracket
    rw [if_pos rfl] at hread
    simp [hread]
  · rw [if_neg hbracket] at hread
    simp [hhash, hbracket, hread]

/-- A plain line is read as what it says. -/
theorem readLines_chars {line : Written} {said : Line} (hline : line.line? = some said)
    (hfits : line.Fits) {rest : List Char} (hrest : AtEnd rest) (n : Nat) :
    readLines (n + 1) (line.chars ++ rest) =
      (endLine rest).bind fun rest =>
        (readLines n rest).bind fun lines => some (said :: lines) := by
  cases line with
  | blank => cases hline
  | header path =>
    obtain rfl := Option.some.inj hline
    exact readLines_cons (by decide) ((if_pos rfl).trans (readHeader_chars hfits rest)) n
  | pair key v =>
    obtain rfl := Option.some.inj hline
    obtain ⟨c, body, hkey, hc⟩ := exists_writeKey key
    have hread := readPair_chars key v hrest
    rw [Written.chars, hkey, List.cons_append, List.cons_append] at hread ⊢
    exact readLines_cons (isSolid_of_key hc).1 ((if_neg (isSolid_of_key hc).2).trans hread) n

/-- An empty line is skipped. -/
theorem readLines_feed (n : Nat) (rest : List Char) :
    readLines (n + 1) ('\n' :: rest) = readLines (n + 1) rest := by
  rw [readLines, readLines]
  simp [skipLines, skipSpaces, isSpace, afterLineEnd?]

/-- **Lines are read back**, with empty lines left out. One of the count is used for each line
that says something, and one more at the end. -/
theorem readLines_text (lines : List Written) :
    ∀ {n : Nat}, (∀ line ∈ lines, line.Fits) → (lines.filterMap Written.line?).length < n →
      readLines n (Written.text lines) = some (lines.filterMap Written.line?) := by
  induction lines with
  | nil =>
    intro n _ hn
    obtain ⟨n, rfl⟩ := Nat.exists_eq_add_of_le' (Nat.succ_le_of_lt hn)
    rfl
  | cons line lines ih =>
    intro n hfits hn
    rw [List.forall_mem_cons] at hfits
    obtain ⟨n, rfl⟩ := Nat.exists_eq_add_of_le' (Nat.lt_of_le_of_lt (Nat.zero_le _) hn)
    -- an empty line takes nothing of the count
    cases hline : line.line? with
    | none =>
      rw [List.filterMap_cons_none hline] at hn ⊢
      obtain rfl : line = .blank := by
        cases line
        · rfl
        all_goals cases hline
      cases lines with
      | nil => rfl
      | cons next lines =>
        rw [Written.text_cons_cons, Written.chars, List.nil_append, readLines_feed]
        exact ih hfits.2 hn
    | some said =>
      rw [List.filterMap_cons_some hline] at hn ⊢
      have hread := ih hfits.2 (Nat.lt_of_succ_lt_succ hn)
      cases lines with
      | nil =>
        have hrest : AtEnd [] := fun c hc => nomatch hc
        have hend := readLines_chars hline hfits.1 hrest n
        have hnil : readLines n [] = some [] := hread
        rw [List.append_nil] at hend
        simp [hend, endLine, skipSpaces, hnil]
      | cons next lines =>
        have hrest : AtEnd ('\n' :: Written.text (next :: lines)) := by
          rintro c ⟨⟩
          rfl
        have hend : endLine ('\n' :: Written.text (next :: lines)) =
          some (Written.text (next :: lines)) := rfl
        rw [Written.text_cons_cons, readLines_chars hline hfits.1 hrest, hend, Option.bind_some,
          hread, Option.bind_some]

/-- Every line that says something takes a character. -/
theorem length_filterMap_le_text (lines : List Written) :
    (lines.filterMap Written.line?).length ≤ (Written.text lines).length := by
  induction lines with
  | nil => exact Nat.le_refl 0
  | cons line lines ih =>
    have hline : (line.line?.toList).length ≤ line.chars.length := by
      cases line with
      | blank => exact Nat.le_refl 0
      | header path => simp [Written.line?, Written.chars]
      | pair key v =>
        simp only [Written.line?, Written.chars, Option.toList_some, List.length_append,
          List.length_cons, List.length_nil]
        omega
    have htext : line.chars.length + (Written.text lines).length ≤
        (Written.text (line :: lines)).length := by
      cases lines with
      | nil => simp [Written.text]
      | cons next lines =>
        rw [Written.text_cons_cons, List.length_append, List.length_cons]
        omega
    have hlength : ((line :: lines).filterMap Written.line?).length =
        line.line?.toList.length + (lines.filterMap Written.line?).length := by
      cases h : line.line? <;> simp [h, Nat.add_comm]
    omega

/-! ## Documents -/

/-- **Documents are read back**: what starts with a header is read as the sections that its
lines make. -/
theorem read_text {text : String} {path : List String} {lines : List Written}
    (htext : text.toList = Written.text (.header path :: lines))
    (hfits : ∀ line ∈ Written.header path :: lines, line.Fits) :
    read text = (addSections [] ((Written.header path :: lines).filterMap Written.line?)).map
      Table.finishEntries := by
  have hmark : withoutMark text.toList = text.toList := by
    cases lines <;> simp [htext, Written.chars, withoutMark]
  have hlength := length_filterMap_le_text (.header path :: lines)
  have hlines := readLines_text (.header path :: lines) hfits (Nat.lt_succ_of_le hlength)
  rw [read, hmark, htext, Option.map_eq_bind]
  simp only [hlines, Option.bind_eq_bind, Option.bind_some]
  rfl

end Checkup.Toml
