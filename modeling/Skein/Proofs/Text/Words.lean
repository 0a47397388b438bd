import Skein.Text.Blank

set_option autoImplicit false

/-!
# Text: what is visible, and words

What shows of a text is its characters that are not white space, in order.  Collapsing a text
changes its white space only: the words are what they were, and one space stands between each two
of them.
-/

namespace Skein.Text

/-! ## What a text shows -/

/-- The characters that are not white space, in order. -/
def visible (s : String) : List Char := s.toList.filter (!isBlank ·)

/-- The number of characters that are not white space. -/
def ink (s : String) : Nat := (s.toList.filter (!isBlank ·)).length

theorem ink_eq (s : String) : ink s = (visible s).length := rfl

theorem visible_append (s t : String) : visible (s ++ t) = visible s ++ visible t := by
  rw [visible, String.toList_append, List.filter_append]
  rfl

theorem ink_append (s t : String) : ink (s ++ t) = ink s + ink t := by
  rw [ink_eq, visible_append, List.length_append]
  rfl

theorem visible_of_isInvisible {s : String} (h : isInvisible s = true) : visible s = [] := by
  rw [visible, List.filter_eq_nil_iff]
  intro c hc
  simpa using List.all_eq_true.mp h c hc

theorem ink_pos {s : String} (h : isInvisible s = false) : 0 < ink s := by
  obtain ⟨c, hc, hblank⟩ := List.all_eq_false.mp h
  exact List.length_pos_of_mem (List.mem_filter.mpr ⟨hc, by simpa using hblank⟩)

/-! ## Words -/

theorem flatten_consWord (word : List Char) (rest : List (List Char)) :
    (consWord word rest).flatten = word ++ rest.flatten := by
  unfold consWord
  split
  · next hempty =>
      rw [List.isEmpty_iff.mp hempty]
      rfl
  · rfl

/-- The words of a text are the text without its white space. -/
theorem flatten_words (cs : List Char) : (words cs).flatten = cs.filter (!isBlank ·) := by
  have hread : ∀ cs : List Char,
      (cs.foldr stepWord ([], [])).1 ++ (cs.foldr stepWord ([], [])).2.flatten =
        cs.filter (!isBlank ·) := by
    intro cs
    induction cs with
    | nil => rfl
    | cons c rest ih =>
        rw [List.foldr_cons, stepWord, List.filter_cons, ← ih]
        cases isBlank c with
        | true => exact flatten_consWord _ _
        | false => rfl
  rw [words, flatten_consWord, hread]

/-- Some characters, and no white space among them. -/
def IsWord (word : List Char) : Prop := word ≠ [] ∧ ∀ c ∈ word, isBlank c = false

theorem isWord_of_mem_consWord {word : List Char} {rest : List (List Char)}
    (hword : ∀ c ∈ word, isBlank c = false) (hrest : ∀ other ∈ rest, IsWord other) :
    ∀ other ∈ consWord word rest, IsWord other := by
  unfold consWord
  split
  · exact hrest
  · next hempty =>
      intro other hother
      rcases List.mem_cons.mp hother with rfl | hother
      · exact ⟨fun hnil => hempty (List.isEmpty_iff.mpr hnil), hword⟩
      · exact hrest other hother

theorem isWord_of_mem_words {cs : List Char} : ∀ word ∈ words cs, IsWord word := by
  -- The first word may still be empty while characters are read in front of it.
  have hread : (∀ c ∈ (cs.foldr stepWord ([], [])).1, isBlank c = false) ∧
      ∀ word ∈ (cs.foldr stepWord ([], [])).2, IsWord word := by
    induction cs with
    | nil => exact ⟨by simp, by simp⟩
    | cons c rest ih =>
        rw [List.foldr_cons, stepWord]
        cases hblank : isBlank c with
        | true => exact ⟨by simp, isWord_of_mem_consWord ih.1 ih.2⟩
        | false =>
            refine ⟨fun other hother => ?_, ih.2⟩
            rcases List.mem_cons.mp hother with rfl | hother
            · exact hblank
            · exact ih.1 other hother
  exact isWord_of_mem_consWord hread.1 hread.2

/-! ## Collapsing -/

theorem filter_intercalate (parts : List (List Char)) :
    (List.intercalate [' '] parts).filter (!isBlank ·) = parts.flatten.filter (!isBlank ·) := by
  induction parts with
  | nil => rfl
  | cons first rest ih =>
      cases rest with
      | nil => simp [List.intercalate]
      | cons second rest =>
          have hblank : isBlank ' ' = true := by decide
          rw [List.flatten_cons, List.filter_append, ← ih]
          simp [List.intercalate, hblank]

/-- Collapsing white space hides nothing. -/
theorem visible_collapse (s : String) : visible (collapse s) = visible s := by
  rw [visible, collapse, String.toList_ofList, filter_intercalate, flatten_words,
    List.filter_filter]
  simp [visible]

theorem ink_collapse (s : String) : ink (collapse s) = ink s := by
  rw [ink_eq, visible_collapse, ink_eq]

/-- A text that is made of words with one space between each two of them. -/
def IsSpaced (s : String) : Prop :=
  ∃ parts, (∀ part ∈ parts, IsWord part) ∧ s.toList = List.intercalate [' '] parts

theorem isSpaced_collapse (s : String) : IsSpaced (collapse s) :=
  ⟨words s.toList, isWord_of_mem_words, String.toList_ofList⟩

theorem collapse_ne_empty {s : String} (h : isInvisible s = false) : collapse s ≠ "" := by
  intro hempty
  have hink := ink_pos h
  rw [← ink_collapse, hempty] at hink
  exact absurd hink (Nat.lt_irrefl 0)

end Skein.Text
