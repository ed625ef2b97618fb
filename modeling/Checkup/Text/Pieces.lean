/-!
# Pieces of a text

The text between separators.
-/

namespace Checkup.Text

/-- The pieces of a text between separators; there is always at least one. -/
def pieces (separator : Char) : List Char → List (List Char)
  | [] => [[]]
  | c :: rest =>
    if c = separator then [] :: pieces separator rest
    else
      match pieces separator rest with
      | [] => [[c]]
      | piece :: more => (c :: piece) :: more

variable {separator : Char}

theorem pieces_ne_nil (cs : List Char) : pieces separator cs ≠ [] := by
  cases cs with
  | nil => simp [pieces]
  | cons c rest =>
    rw [pieces]
    split
    · simp
    · split <;> simp

/-- A text without separators is one piece. -/
theorem pieces_of_notMem {cs : List Char} (h : separator ∉ cs) : pieces separator cs = [cs] := by
  induction cs with
  | nil => rfl
  | cons c rest ih =>
    obtain ⟨hc, hrest⟩ := not_or.mp fun hmem => h (List.mem_cons.mpr hmem)
    rw [pieces, if_neg (Ne.symm hc), ih hrest]

/-- No piece has a separator. -/
theorem notMem_of_mem_pieces {cs piece : List Char} (h : piece ∈ pieces separator cs) :
    separator ∉ piece := by
  induction cs generalizing piece with
  | nil =>
    obtain rfl : piece = [] := by simpa [pieces] using h
    simp
  | cons c rest ih =>
    rw [pieces] at h
    split at h
    · rcases List.mem_cons.mp h with rfl | h
      · simp
      · exact ih h
    · rename_i hc
      cases hp : pieces separator rest with
      | nil => exact absurd hp (pieces_ne_nil rest)
      | cons first more =>
        rw [hp] at h
        rcases List.mem_cons.mp h with rfl | h
        · have hfirst := ih (hp ▸ List.mem_cons_self)
          simpa [Ne.symm hc] using hfirst
        · exact ih (hp ▸ List.mem_cons_of_mem _ h)

/-- A separator ends a piece. -/
theorem pieces_append_cons (cs rest : List Char) :
    pieces separator (cs ++ separator :: rest) =
      pieces separator cs ++ pieces separator rest := by
  induction cs with
  | nil => simp [pieces]
  | cons c cs ih =>
    rw [List.cons_append, pieces, pieces, ih]
    split
    · rfl
    · cases hp : pieces separator cs with
      | nil => exact absurd hp (pieces_ne_nil cs)
      | cons first more => rfl

/-- Pieces without separators are those of the text that they make. -/
theorem pieces_intercalate {parts : List (List Char)} (hne : parts ≠ [])
    (hparts : ∀ part ∈ parts, separator ∉ part) :
    pieces separator ([separator].intercalate parts) = parts := by
  induction parts with
  | nil => exact absurd rfl hne
  | cons part rest ih =>
    have hpart := hparts part List.mem_cons_self
    cases rest with
    | nil => rw [List.intercalate_singleton, pieces_of_notMem hpart]
    | cons next others =>
      rw [List.intercalate_cons_cons, List.append_assoc, List.singleton_append,
        pieces_append_cons, pieces_of_notMem hpart, List.singleton_append,
        ih (List.cons_ne_nil _ _) fun other hother => hparts other (List.mem_cons_of_mem _ hother)]

/-- The last piece is empty only if the text is, or ends in a separator. -/
theorem eq_nil_or_of_pieces {cs : List Char} (h : (pieces separator cs).getLast? = some []) :
    cs = [] ∨ cs.getLast? = some separator := by
  induction cs with
  | nil => exact .inl rfl
  | cons c rest ih =>
    refine .inr ?_
    cases hp : pieces separator rest with
    | nil => exact absurd hp (pieces_ne_nil rest)
    | cons first more =>
      rw [pieces, hp] at h
      rw [hp] at ih
      split at h
      · rename_i hc
        rw [List.getLast?_cons_cons] at h
        rcases ih h with rfl | hlast
        · rw [hc]
          rfl
        · cases rest with
          | nil => cases hlast
          | cons d ds => rwa [List.getLast?_cons_cons]
      · cases more with
        | nil => simp at h
        | cons second others =>
          rw [List.getLast?_cons_cons] at h ih
          rcases ih h with rfl | hlast
          · simp [pieces] at hp
          · cases rest with
            | nil => cases hlast
            | cons d ds => rwa [List.getLast?_cons_cons]

end Checkup.Text
