import Checkup.Json.Reader
import Checkup.Json.Writer
import Checkup.Proofs.Digits

/-!
# Values are read back

What is written of a value is read as that value, at any depth of indentation:

* `Json.readString_escaped` — strings, whatever characters they have.
* `Json.readNumber_integer` — whole numbers, up to what follows them.
* `Json.readItems_written`, `Json.readMembers_written` — the insides of arrays and objects.
  For a character the reader counts down by two at most.
* `Json.read_write` — whole texts.
-/

namespace Checkup.Json

/-! ## Strings -/

/-- The code of a control character is read back. -/
theorem hexNumber?_code {n : Nat} (h : n < 0x20) :
    Text.hexNumber? ['0', '0', Text.hexDigit (n / 16), Text.hexDigit (n % 16)] = some n := by
  have hall : ∀ n : Fin 0x20, Text.hexNumber?
      ['0', '0', Text.hexDigit (n.val / 16), Text.hexDigit (n.val % 16)] = some n.val := by
    decide +kernel
  exact hall ⟨n, h⟩

/-- A character is written by a short escape, by its code, or as it is. -/
theorem escapeChar_cases (c : Char) :
    (∃ e, escapeChar c = ['\\', e] ∧ e ≠ 'u' ∧ shortEscape? e = some c) ∨
      (escapeChar c = ['\\', 'u', '0', '0', Text.hexDigit (c.toNat / 16),
          Text.hexDigit (c.toNat % 16)] ∧ c.toNat < 0x20) ∨
      (escapeChar c = [c] ∧ c ≠ '"' ∧ c ≠ '\\' ∧ 0x20 ≤ c.toNat) := by
  by_cases hshort : c ∈ ['"', '\\', '\x08', '\x0c', '\n', '\r', '\t']
  · refine .inl ?_
    simp only [List.mem_cons, List.not_mem_nil, or_false] at hshort
    rcases hshort with rfl | rfl | rfl | rfl | rfl | rfl | rfl
    all_goals exact ⟨_, rfl, by decide, by decide⟩
  · simp only [List.mem_cons, List.not_mem_nil, or_false, not_or] at hshort
    obtain ⟨hquote, hback, hb, hf, hn, hr, ht⟩ := hshort
    rw [escapeChar, if_neg hquote, if_neg hback, if_neg hb, if_neg hf, if_neg hn, if_neg hr,
      if_neg ht]
    split
    · rename_i hcode
      exact .inr (.inl ⟨rfl, hcode⟩)
    · rename_i hcode
      exact .inr (.inr ⟨rfl, hquote, hback, by omega⟩)

/-- A character is read back from its escape, and what follows it after that. -/
theorem readPoints_escapeChar (c : Char) {text rest : List Char} {points : List Nat}
    (h : readPoints text = some (points, rest)) :
    readPoints (escapeChar c ++ text) = some (c.toNat :: points, rest) := by
  rcases escapeChar_cases c with
    ⟨e, hc, he, hshort⟩ | ⟨hc, hcode⟩ | ⟨hc, hquote, hback, hplain⟩
  · rw [hc, List.cons_append, List.singleton_append, readPoints]
    · simp [hshort, h]
    · exact fun _ _ _ _ _ hu => absurd hu he
  · rw [hc]
    simp [readPoints, hexNumber?_code hcode, h]
  · rw [hc, List.singleton_append, readPoints]
    · simp [guard, hback, hplain, h]
    · exact fun hc => hquote hc
    · exact fun _ _ _ _ _ hc => absurd hc hback
    · exact fun _ _ hc => absurd hc hback

theorem readPoints_escaped (text rest : List Char) :
    readPoints (text.flatMap escapeChar ++ '"' :: rest) = some (text.map Char.toNat, rest) := by
  induction text with
  | nil => rfl
  | cons c text ih =>
    rw [List.flatMap_cons, List.append_assoc, readPoints_escapeChar c ih, List.map_cons]

/-- A character is no half of a pair. -/
theorem isSurrogate_toNat (c : Char) :
    isHighSurrogate c.toNat = false ∧ isLowSurrogate c.toNat = false := by
  have hvalid : c.toNat < 0xD800 ∨ 0xDFFF < c.toNat ∧ c.toNat < 0x110000 := c.valid
  simp only [isHighSurrogate, isLowSurrogate, Bool.and_eq_false_iff, decide_eq_false_iff_not]
  omega

theorem textOfPoints_cons (c : Char) (points : List Nat) :
    textOfPoints (c.toNat :: points) = (textOfPoints points).map (c :: ·) := by
  obtain ⟨hhigh, hlow⟩ := isSurrogate_toNat c
  cases points with
  | nil => simp [textOfPoints, hhigh, hlow]
  | cons next rest => simp [textOfPoints, hhigh, hlow]

/-- A text is made of its code points. -/
theorem textOfPoints_map_toNat (text : List Char) :
    textOfPoints (text.map Char.toNat) = some text := by
  induction text with
  | nil => rfl
  | cons c text ih => rw [List.map_cons, textOfPoints_cons, ih, Option.map_some]

/-- A string is read back from its escapes, up to the closing quote. -/
theorem readString_escaped (s : String) (rest : List Char) :
    readString (s.toList.flatMap escapeChar ++ '"' :: rest) = some (some s, rest) := by
  simp [readString, readPoints_escaped, textOfPoints_map_toNat]

/-! ## Numbers -/

/-- What may follow a value: nothing, another item or member, or the end of them. -/
def Closes (rest : List Char) : Prop := ∀ c ∈ rest.head?, c = ',' ∨ c = '\n'

/-- Digits are read up to the end of the value. -/
theorem readWhole_toDigits (n : Nat) {rest : List Char} (hrest : Closes rest) :
    readWhole (Nat.toDigits 10 n ++ rest) = some (Nat.toDigits 10 n, rest) := by
  have hend : ∀ c ∈ rest.head?, c.isDigit = false := fun c hc => by
    rcases hrest c hc with rfl | rfl <;> decide
  obtain ⟨htake, hdrop⟩ :=
    Text.takeWhile_dropWhile_append (fun c => Text.isDigit_of_mem_toDigits (n := n)) hend
  have hzero : (Nat.toDigits 10 n).head? ≠ some '0' ∨ (Nat.toDigits 10 n).length = 1 := by
    rcases Nat.eq_zero_or_pos n with rfl | hpos
    · exact .inr rfl
    · exact .inl (Text.head?_toDigits hpos)
  simp [readWhole, readDigits, htake, hdrop, guard, hzero]

/-- At the end of a value there is neither a fraction nor an exponent. -/
theorem skip_of_closes {rest : List Char} (hrest : Closes rest) :
    skipFraction rest = some (false, rest) ∧ skipExponent rest = some (false, rest) := by
  cases rest with
  | nil => exact ⟨rfl, rfl⟩
  | cons c rest => rcases hrest c rfl with rfl | rfl <;> exact ⟨rfl, rfl⟩

/-- A number has a first digit. -/
theorem exists_toDigits (n : Nat) :
    ∃ c text, Nat.toDigits 10 n = c :: text ∧ c.isDigit = true := by
  obtain ⟨c, text, htext⟩ := List.exists_cons_of_ne_nil (Nat.toDigits_ne_nil (n := n) (b := 10))
  exact ⟨c, text, htext, Text.isDigit_of_mem_toDigits (htext ▸ List.mem_cons_self)⟩

/-- The first character of a whole number is a digit or a minus. -/
theorem exists_toString_int (n : Int) :
    ∃ c text, (toString n).toList = c :: text ∧ (c = '-' ∨ c.isDigit = true) := by
  rw [Text.toList_toString_int]
  split
  · exact ⟨_, _, rfl, .inl rfl⟩
  · obtain ⟨c, text, htext, hdigit⟩ := exists_toDigits n.natAbs
    exact ⟨c, text, htext, .inr hdigit⟩

/-- A whole number is read back, up to the end of the value. -/
theorem readNumber_integer (n : Int) {rest : List Char} (hrest : Closes rest) :
    readNumber ((toString n).toList ++ rest) = some (.integer n, rest) := by
  have hvalue := Text.decimalNumber_toDigits n.natAbs
  have hwhole := readWhole_toDigits n.natAbs hrest
  obtain ⟨hfraction, hexponent⟩ := skip_of_closes hrest
  rw [Text.toList_toString_int]
  split
  · have hne : n.natAbs ≠ 0 := by omega
    have hn : -(n.natAbs : Int) = n := by omega
    generalize n.natAbs = size at hvalue hwhole hne hn ⊢
    simp [readNumber, hwhole, hfraction, hexponent, hvalue, hne, hn]
  · have hn : (n.natAbs : Int) = n := by omega
    have hhead : (Nat.toDigits 10 n.natAbs ++ rest).head? ≠ some '-' := by
      obtain ⟨c, text, htext, hdigit⟩ := exists_toDigits n.natAbs
      rw [htext, List.cons_append, List.head?_cons, ne_eq, Option.some.injEq]
      rintro rfl
      cases hdigit
    generalize n.natAbs = size at hvalue hwhole hhead hn ⊢
    simp only [readNumber, hhead, decide_false, if_false, hwhole, Option.bind_eq_bind,
      Option.bind_some, hfraction, hexponent]
    simp [hvalue, hn]

/-! ## Values -/

theorem skipSpaces_newLine (depth : Nat) (rest : List Char) :
    skipSpaces (newLine depth ++ rest) = skipSpaces rest := by
  refine List.dropWhile_append_of_pos fun c hc => ?_
  rcases List.mem_cons.mp hc with rfl | hc
  · rfl
  · rw [(List.mem_replicate.mp hc).2]
    rfl

theorem skipSpaces_blank (rest : List Char) : skipSpaces (' ' :: rest) = skipSpaces rest := rfl

theorem skipSpaces_cons {c : Char} (hc : isSpace c = false) (rest : List Char) :
    skipSpaces (c :: rest) = c :: rest := by
  simp [skipSpaces, hc]

/-- A blank is no digit. -/
theorem isSpace_of_isDigit {c : Char} (h : c.isDigit = true) : isSpace c = false ∧ c ≠ ']' := by
  have hne : ∀ d : Char, d.isDigit = false → c ≠ d := by
    rintro d hd rfl
    rw [h] at hd
    cases hd
  simp [isSpace, hne]

/-- What is written starts with a character that is neither blank nor closes a list. -/
theorem exists_writeChars (depth : Nat) (v : Value) :
    ∃ c text, writeChars depth v = c :: text ∧ isSpace c = false ∧ c ≠ ']' := by
  cases v with
  | null | decimal | string text => simp [writeChars, quoted, isSpace]
  | boolean b => cases b <;> simp [writeChars, isSpace]
  | integer n =>
    obtain ⟨c, text, htext, hc⟩ := exists_toString_int n
    refine ⟨c, text, by rw [writeChars, htext], ?_⟩
    rcases hc with rfl | hdigit
    · decide
    · exact isSpace_of_isDigit hdigit
  | array items => cases items <;> simp [writeChars, isSpace]
  | object members =>
    rcases members with - | ⟨⟨name, v⟩, rest⟩ <;> simp [writeChars, isSpace]

/-- Nothing is skipped of what is written. -/
theorem skipSpaces_written (depth : Nat) (v : Value) (rest : List Char) :
    skipSpaces (writeChars depth v ++ rest) = writeChars depth v ++ rest := by
  obtain ⟨c, text, hv, hc, -⟩ := exists_writeChars depth v
  rw [hv, List.cons_append, skipSpaces_cons hc]

/-- A value is read back at any depth, up to its end, by a reader that counts down from twice
the length of what is written. -/
def ReadsBack (v : Value) : Prop :=
  ∀ (depth fuel : Nat) (rest : List Char), Closes rest →
    2 * (writeChars depth v).length ≤ fuel →
      readValue (fuel + 1) (writeChars depth v ++ rest) = some (v, rest)

-- the equations of the reader are made here, once for all the values that follow
attribute [local simp] readValue in
theorem readsBack_null : ReadsBack .null := by
  intro depth fuel rest _ _
  have hnull : "null".toList = ['n', 'u', 'l', 'l'] := rfl
  rw [writeChars, hnull]
  simp

theorem readsBack_boolean (b : Bool) : ReadsBack (.boolean b) := by
  intro depth fuel rest _ _
  rw [writeChars]
  cases b <;> simp [readValue]

theorem readsBack_text (s : String) : ReadsBack (.text s) := by
  intro depth fuel rest _ _
  rw [Value.text, writeChars]
  simp [quoted, readValue, readString_escaped]

theorem readsBack_integer (n : Int) : ReadsBack (.integer n) := by
  intro depth fuel rest hrest _
  have hnumber := readNumber_integer n hrest
  rw [writeChars]
  obtain ⟨c, text, htext, hc⟩ := exists_toString_int n
  -- no other value starts with a digit or a minus
  have hother : ∀ d : Char, d ≠ '-' → d.isDigit = false → c ≠ d := by
    rintro d hminus hdigit rfl
    rcases hc with hc | hc
    · exact hminus hc
    · rw [hdigit] at hc
      cases hc
  rw [htext, List.cons_append] at hnumber ⊢
  rw [readValue]
  · exact hnumber
  all_goals
    intro _ heq
    exact hother _ (by decide) (by decide) (List.cons.inj heq).1

theorem closes_newLine (depth : Nat) (rest : List Char) : Closes (newLine depth ++ rest) := by
  rintro c hc
  exact .inr (Option.some.inj hc).symm

theorem closes_comma (rest : List Char) : Closes (',' :: rest) := by
  rintro c hc
  exact .inl (Option.some.inj hc).symm

/-! ## Arrays -/

theorem writeItems_cons_append (depth : Nat) (item : Value) (items : List Value)
    (rest : List Char) :
    writeItems depth (item :: items) ++ rest =
      ',' :: (newLine depth ++ (writeChars depth item ++ (writeItems depth items ++ rest))) := by
  simp [writeItems]

theorem writeChars_array_cons_append (depth : Nat) (item : Value) (items : List Value)
    (rest : List Char) :
    writeChars depth (.array (item :: items)) ++ rest =
      '[' :: (newLine (depth + 1) ++ (writeChars (depth + 1) item ++
        (writeItems (depth + 1) items ++ (newLine depth ++ ']' :: rest)))) := by
  simp [writeChars]

/-- Items are read back up to the closing bracket. -/
theorem readItems_written {items : List Value} (depth level : Nat) (rest : List Char) :
    ∀ {item : Value} (fuel : Nat), ReadsBack item → (∀ v ∈ items, ReadsBack v) →
      2 * (writeChars depth item ++ writeItems depth items).length ≤ fuel →
      readItems (fuel + 2) (writeChars depth item ++
          (writeItems depth items ++ (newLine level ++ ']' :: rest))) =
        some (item :: items, rest) := by
  induction items with
  | nil =>
    intro item fuel hitem _ hfuel
    have hread := hitem depth fuel _ (closes_newLine level (']' :: rest))
      (by simpa [writeItems] using hfuel)
    rw [writeItems, List.nil_append, readItems, hread]
    simp [skipSpaces_newLine, skipSpaces_cons (c := ']') rfl]
  | cons next items ih =>
    intro item fuel hitem hitems hfuel
    have hlength := congrArg List.length (writeItems_cons_append depth next items [])
    simp only [List.length_append, List.length_cons, List.append_nil] at hfuel hlength
    obtain ⟨n, rfl⟩ := Nat.exists_eq_add_of_le' (show 1 ≤ fuel by omega)
    have hread := hitem depth (n + 1) _
      (closes_comma (newLine depth ++ (writeChars depth next ++
        (writeItems depth items ++ (newLine level ++ ']' :: rest))))) (by omega)
    have hrest := ih n (hitems next List.mem_cons_self)
      (fun v hv => hitems v (List.mem_cons_of_mem _ hv))
      (by rw [List.length_append]; omega)
    rw [writeItems_cons_append, readItems, hread]
    simp [skipSpaces_cons (c := ',') rfl, skipSpaces_newLine, skipSpaces_written, hrest]

theorem readsBack_array {items : List Value} (hitems : ∀ v ∈ items, ReadsBack v) :
    ReadsBack (.array items) := by
  intro depth fuel rest _ hfuel
  cases items with
  | nil =>
    rw [writeChars]
    simp [readValue, skipSpaces_cons (c := ']') rfl]
  | cons item items =>
    have hlength := congrArg List.length (writeChars_array_cons_append depth item items [])
    simp only [List.length_append, List.length_cons, List.append_nil] at hlength
    obtain ⟨n, rfl⟩ := Nat.exists_eq_add_of_le' (show 2 ≤ fuel by omega)
    have hread := readItems_written (depth + 1) depth rest n (hitems item List.mem_cons_self)
      (fun v hv => hitems v (List.mem_cons_of_mem _ hv))
      (by rw [List.length_append]; omega)
    -- the first item is not the closing bracket
    obtain ⟨c, text, hc, -, hclose⟩ := exists_writeChars (depth + 1) item
    rw [writeChars_array_cons_append, readValue, skipSpaces_newLine, skipSpaces_written]
    split
    · rename_i heq
      rw [hc] at heq
      exact absurd (List.cons.inj heq).1 hclose
    · rw [hread, Option.map_some]

/-! ## Objects -/

/-- Members whose names are texts. -/
def proper (members : List (String × Value)) : List (Option String × Value) :=
  members.map fun member => (some member.1, member.2)

theorem record_eq (members : List (String × Value)) :
    Value.record members = .object (proper members) := rfl

theorem proper_cons (member : String × Value) (members : List (String × Value)) :
    proper (member :: members) = (some member.1, member.2) :: proper members := rfl

/-- A member at a depth of indentation. -/
def writeMember (depth : Nat) (member : String × Value) : List Char :=
  quoted member.1 ++ ':' :: ' ' :: writeChars depth member.2

theorem writeMember_append (depth : Nat) (member : String × Value) (rest : List Char) :
    writeMember depth member ++ rest =
      '"' :: (member.1.toList.flatMap escapeChar ++
        '"' :: ':' :: ' ' :: (writeChars depth member.2 ++ rest)) := by
  simp [writeMember, quoted]

theorem writeMembers_cons_append (depth : Nat) (member : String × Value)
    (members : List (String × Value)) (rest : List Char) :
    writeMembers depth (proper (member :: members)) ++ rest =
      ',' :: (newLine depth ++ (writeMember depth member ++
        (writeMembers depth (proper members) ++ rest))) := by
  simp [proper_cons, writeMembers, writeMember]

theorem writeChars_record_cons_append (depth : Nat) (member : String × Value)
    (members : List (String × Value)) (rest : List Char) :
    writeChars depth (.record (member :: members)) ++ rest =
      '{' :: (newLine (depth + 1) ++ (writeMember (depth + 1) member ++
        (writeMembers (depth + 1) (proper members) ++ (newLine depth ++ '}' :: rest)))) := by
  simp [record_eq, proper_cons, writeChars, writeMember]

theorem skipSpaces_member (depth : Nat) (member : String × Value) (rest : List Char) :
    skipSpaces (writeMember depth member ++ rest) = writeMember depth member ++ rest := by
  rw [writeMember_append, skipSpaces_cons rfl]

/-- Members are read back up to the closing brace. -/
theorem readMembers_written {members : List (String × Value)} (depth level : Nat)
    (rest : List Char) :
    ∀ {member : String × Value} (fuel : Nat), ReadsBack member.2 →
      (∀ m ∈ members, ReadsBack m.2) →
      2 * (writeMember depth member ++ writeMembers depth (proper members)).length ≤ fuel →
      readMembers (fuel + 2) (writeMember depth member ++
          (writeMembers depth (proper members) ++ (newLine level ++ '}' :: rest))) =
        some (proper (member :: members), rest) := by
  induction members with
  | nil =>
    intro member fuel hmember _ hfuel
    have hlength := congrArg List.length (writeMember_append depth member [])
    simp only [List.length_append, List.length_cons, List.append_nil] at hfuel hlength
    have hread := hmember depth fuel _ (closes_newLine level ('}' :: rest)) (by omega)
    rw [writeMember_append, readMembers, readString_escaped]
    simp [proper, writeMembers, skipSpaces_cons (c := ':') rfl, skipSpaces_blank,
      skipSpaces_written, hread, skipSpaces_newLine, skipSpaces_cons (c := '}') rfl]
  | cons next members ih =>
    intro member fuel hmember hmembers hfuel
    have hlength := congrArg List.length (writeMember_append depth member [])
    have hlengths := congrArg List.length (writeMembers_cons_append depth next members [])
    simp only [List.length_append, List.length_cons, List.append_nil] at hfuel hlength hlengths
    obtain ⟨n, rfl⟩ := Nat.exists_eq_add_of_le' (show 1 ≤ fuel by omega)
    have hread := hmember depth (n + 1) _
      (closes_comma (newLine depth ++ (writeMember depth next ++
        (writeMembers depth (proper members) ++ (newLine level ++ '}' :: rest))))) (by omega)
    have hrest := ih n (hmembers next List.mem_cons_self)
      (fun m hm => hmembers m (List.mem_cons_of_mem _ hm))
      (by rw [List.length_append]; omega)
    rw [writeMember_append, readMembers, readString_escaped, writeMembers_cons_append]
    simp [skipSpaces_cons (c := ':') rfl, skipSpaces_blank, skipSpaces_written, hread,
      skipSpaces_cons (c := ',') rfl, skipSpaces_newLine, skipSpaces_member, hrest, proper_cons]

theorem readsBack_record {members : List (String × Value)}
    (hmembers : ∀ m ∈ members, ReadsBack m.2) : ReadsBack (.record members) := by
  intro depth fuel rest _ hfuel
  cases members with
  | nil =>
    rw [record_eq, proper, List.map_nil, writeChars]
    simp [readValue, skipSpaces_cons (c := '}') rfl]
  | cons member members =>
    have hlength := congrArg List.length (writeChars_record_cons_append depth member members [])
    simp only [List.length_append, List.length_cons, List.append_nil] at hlength
    obtain ⟨n, rfl⟩ := Nat.exists_eq_add_of_le' (show 2 ≤ fuel by omega)
    have hread := readMembers_written (depth + 1) depth rest n
      (hmembers member List.mem_cons_self) (fun m hm => hmembers m (List.mem_cons_of_mem _ hm))
      (by rw [List.length_append]; omega)
    rw [writeChars_record_cons_append, readValue, skipSpaces_newLine, skipSpaces_member]
    split
    · rename_i heq
      rw [writeMember_append] at heq
      exact absurd (List.cons.inj heq).1 (by decide)
    · rw [hread, Option.map_some, record_eq]

/-! ## Whole texts -/

/-- What has a text of its own: strings and names that are texts, and whole numbers. -/
inductive Faithful : Value → Prop
  /-- the null value -/
  | null : Faithful .null
  /-- truth values -/
  | boolean (b : Bool) : Faithful (.boolean b)
  /-- whole numbers -/
  | integer (n : Int) : Faithful (.integer n)
  /-- texts -/
  | text (s : String) : Faithful (.text s)
  /-- arrays of such values -/
  | array {items : List Value} : (∀ v ∈ items, Faithful v) → Faithful (.array items)
  /-- objects of such values -/
  | record {members : List (String × Value)} :
      (∀ m ∈ members, Faithful m.2) → Faithful (.record members)

theorem Faithful.readsBack {v : Value} (h : Faithful v) : ReadsBack v := by
  induction h with
  | null => exact readsBack_null
  | boolean b => exact readsBack_boolean b
  | integer n => exact readsBack_integer n
  | text s => exact readsBack_text s
  | array _ ih => exact readsBack_array ih
  | record _ ih => exact readsBack_record ih

/-- **What is written of a value is read as that value.** -/
theorem read_write {v : Value} (h : Faithful v) : read (write v) = some v := by
  have hread := h.readsBack 0 _ [] nofun le_rfl
  have hspaces := skipSpaces_written 0 v []
  have hend : skipSpaces [] = [] := rfl
  rw [List.append_nil] at hread hspaces
  simp [read, write, hspaces, hread, hend]

end Checkup.Json
