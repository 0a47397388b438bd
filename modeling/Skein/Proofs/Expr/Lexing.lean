import Skein.Expr.Expression
import Skein.Proofs.Outcome

set_option autoImplicit false

/-!
# Expr: reading a source again

An expression keeps its source without the white space around it.  Read again, that source
gives the same expression.  White space in front of a source is skipped before the first
lexeme, or else the source cannot be read at all; and no lexeme reaches into the white space
behind it, whatever it looks at to find its end.
-/

namespace Skein

/-! ## Trimming -/

namespace Text

/-- White space around a text is all that trimming takes away. -/
theorem exists_blanks (cs : List Char) :
    ∃ front back, cs = front ++ (trimChars cs ++ back) ∧
      (∀ c ∈ front, isBlank c = true) ∧ ∀ c ∈ back, isBlank c = true := by
  refine ⟨cs.takeWhile isBlank, ((cs.dropWhile isBlank).reverse.takeWhile isBlank).reverse,
    ?_, ?_, ?_⟩
  · rw [trimChars, ← List.reverse_append, List.takeWhile_append_dropWhile, List.reverse_reverse,
      List.takeWhile_append_dropWhile]
  · intro c hc
    exact List.all_eq_true.mp List.all_takeWhile c hc
  · intro c hc
    exact List.all_eq_true.mp List.all_takeWhile c (List.mem_reverse.mp hc)

/-- A text that does not start with white space. -/
def StartsVisible (cs : List Char) : Prop := ∀ c ∈ cs.head?, isBlank c = false

theorem StartsVisible.dropWhile_eq {cs : List Char} (h : StartsVisible cs) :
    cs.dropWhile isBlank = cs := by
  cases cs with
  | nil => rfl
  | cons c rest =>
      have hc : isBlank c = false := h c rfl
      rw [List.dropWhile_cons, hc]
      rfl

theorem startsVisible_dropWhile (cs : List Char) : StartsVisible (cs.dropWhile isBlank) := by
  intro c hc
  have := List.head?_dropWhile_not isBlank cs
  rw [Option.mem_def.mp hc] at this
  simpa using this

theorem StartsVisible.of_append {cs rest : List Char} (h : StartsVisible (cs ++ rest)) :
    StartsVisible cs := by
  cases cs with
  | nil =>
      intro c hc
      cases hc
  | cons c cs => exact h

theorem trimChars_trimChars (cs : List Char) : trimChars (trimChars cs) = trimChars cs := by
  have hback : StartsVisible ((cs.dropWhile isBlank).reverse.dropWhile isBlank) :=
    startsVisible_dropWhile _
  have hfront : StartsVisible (trimChars cs) := by
    have hwhole := startsVisible_dropWhile cs
    rw [← (cs.dropWhile isBlank).reverse_reverse,
      ← List.takeWhile_append_dropWhile (p := isBlank) (l := (cs.dropWhile isBlank).reverse),
      List.reverse_append] at hwhole
    exact hwhole.of_append
  rw [trimChars, hfront.dropWhile_eq]
  unfold trimChars
  rw [List.reverse_reverse, hback.dropWhile_eq]

theorem trim_trim (s : String) : trim (trim s) = trim s := by
  unfold trim
  rw [String.toList_ofList, trimChars_trimChars]

end Text

/-! ## White space and lexemes -/

namespace Lexeme

open Text

theorem isDigit_of_isBlank {c : Char} (h : isBlank c = true) : c.isDigit = false := by
  simp only [isBlank, Bool.or_eq_true, Bool.and_eq_true, decide_eq_true_eq, beq_iff_eq] at h
  simp only [Char.isDigit, Bool.and_eq_false_iff, decide_eq_false_iff_not]
  simp only [ge_iff_le, UInt32.le_iff_toNat_le, Char.reduceVal, UInt32.reduceToNat,
    Char.toNat_val]
  omega

theorem isAlpha_eq (c : Char) :
    c.isAlpha = (decide (c.val ≥ 'A'.val ∧ c.val ≤ 'Z'.val) ||
      (decide (c.val ≥ 'a'.val) && decide (c.val ≤ 'z'.val))) := rfl

theorem isWordStart_of_isBlank {c : Char} (h : isBlank c = true) : isWordStart c = false := by
  have hne : c ≠ '_' := by
    rintro rfl
    exact absurd h (by decide)
  simp only [isBlank, Bool.or_eq_true, Bool.and_eq_true, decide_eq_true_eq, beq_iff_eq] at h
  simp only [isWordStart, isAlpha_eq, Bool.or_eq_false_iff, Bool.and_eq_false_iff,
    decide_eq_false_iff_not]
  simp only [ge_iff_le, UInt32.le_iff_toNat_le, Char.reduceVal, UInt32.reduceToNat,
    Char.toNat_val, hne, not_false_eq_true, and_true]
  omega

theorem isWordChar_of_isBlank {c : Char} (h : isBlank c = true) : isWordChar c = false := by
  have hstart := isWordStart_of_isBlank h
  have hdigit := isDigit_of_isBlank h
  unfold isWordStart at hstart
  unfold isWordChar Char.isAlphanum
  rw [Bool.or_eq_false_iff] at hstart ⊢
  rw [hstart.1, hdigit]
  exact ⟨rfl, hstart.2⟩

theorem ofTwo?_of_isBlank (c : Char) {d : Char} (h : isBlank d = true) : ofTwo? c d = none := by
  unfold ofTwo?
  split
  case h_15 => rfl
  -- Every other case names two characters that are not white space.
  all_goals exact absurd h (by decide)

theorem ofTwo?_of_isBlank_left {c : Char} (h : isBlank c = true) (d : Char) :
    ofTwo? c d = none := by
  unfold ofTwo?
  split
  case h_15 => rfl
  all_goals exact absurd h (by decide)

theorem ofOne?_of_isBlank {c : Char} (h : isBlank c = true) : ofOne? c = none := by
  unfold ofOne?
  split
  case h_17 => rfl
  all_goals exact absurd h (by decide)

/-- No lexeme starts with white space. -/
theorem first_of_isBlank {c : Char} (h : isBlank c = true) (rest : List Char) :
    first c rest = .error [c] := by
  have hquote : c ≠ '"' := by
    rintro rfl
    exact absurd h (by decide)
  have htwo : rest.head?.bind (ofTwo? c) = none := by
    cases rest with
    | nil => rfl
    | cons d rest => exact ofTwo?_of_isBlank_left h d
  unfold first
  rw [if_neg hquote, isDigit_of_isBlank h, isWordStart_of_isBlank h, htwo, ofOne?_of_isBlank h]
  rfl

/-! ## White space behind a source -/

theorem takeWhile_append_blanks {p : Char → Bool} {blanks : List Char}
    (hp : ∀ c ∈ blanks, p c = false) (cs : List Char) :
    (cs ++ blanks).takeWhile p = cs.takeWhile p := by
  induction cs with
  | nil =>
      cases blanks with
      | nil => rfl
      | cons b blanks =>
          rw [List.nil_append, List.takeWhile_cons, hp b List.mem_cons_self]
          rfl
  | cons c cs ih =>
      rw [List.cons_append, List.takeWhile_cons, List.takeWhile_cons, ih]

theorem dropWhile_append_blanks {p : Char → Bool} {blanks : List Char}
    (hp : ∀ c ∈ blanks, p c = false) (cs : List Char) :
    (cs ++ blanks).dropWhile p = cs.dropWhile p ++ blanks := by
  induction cs with
  | nil =>
      cases blanks with
      | nil => rfl
      | cons b blanks =>
          rw [List.nil_append, List.dropWhile_cons, hp b List.mem_cons_self]
          rfl
  | cons c cs ih =>
      rw [List.cons_append, List.dropWhile_cons, List.dropWhile_cons, ih]
      split <;> rfl

/-- A character in quotes that neither ends the text nor starts an escape. -/
theorem scanText_cons {found rest : List Char} {c : Char} (hquote : c ≠ '"')
    (hescape : c ≠ '\\') : scanText found (c :: rest) = scanText (c :: found) rest := by
  rw [scanText]
  · exact hquote
  · intro hc
    exact absurd hc hescape
  · intro d later hc
    exact absurd hc hescape

section Blanks

variable {blanks : List Char} (hblanks : ∀ c ∈ blanks, isBlank c = true)

include hblanks

/-- No text in quotes ends in white space. -/
theorem scanText_blanks (found : List Char) : (scanText found blanks).2 = none := by
  induction blanks generalizing found with
  | nil => rfl
  | cons b rest ih =>
      have hquote : b ≠ '"' := by
        rintro rfl
        exact absurd (hblanks _ List.mem_cons_self) (by decide)
      have hescape : b ≠ '\\' := by
        rintro rfl
        exact absurd (hblanks _ List.mem_cons_self) (by decide)
      rw [scanText_cons hquote hescape]
      exact ih (fun c hc => hblanks c (List.mem_cons_of_mem _ hc)) (b :: found)

theorem scanText_append {cs : List Char} (found : List Char) {body after : List Char}
    (h : scanText found (cs ++ blanks) = (body, some after)) :
    ∃ rest, after = rest ++ blanks ∧ scanText found cs = (body, some rest) := by
  fun_induction scanText found cs with
  | case1 found =>
      have hnone := scanText_blanks hblanks found
      rw [List.nil_append] at h
      rw [h] at hnone
      cases hnone
  | case2 found rest =>
      rw [List.cons_append, scanText] at h
      cases h
      exact ⟨rest, rfl, rfl⟩
  | case3 found =>
      have hnone : (scanText found ('\\' :: blanks)).2 = none := by
        cases blanks with
        | nil => rfl
        | cons b rest =>
            rw [scanText]
            split
            · rfl
            · exact scanText_blanks (fun c hc => hblanks c (List.mem_cons_of_mem _ hc)) _
      rw [List.singleton_append] at h
      rw [h] at hnone
      cases hnone
  | case4 found rest => 
      rw [List.cons_append, List.cons_append, scanText] at h
      simp at h
  | case5 found c rest hc ih =>
      rw [List.cons_append, List.cons_append, scanText, if_neg hc] at h
      exact ih h
  | case6 found c rest hquote hlast hescape ih =>
      have hplain : c ≠ '\\' := by
        intro hc
        cases rest with
        | nil => exact hlast hc rfl
        | cons d later => exact hescape d later hc rfl
      rw [List.cons_append, scanText_cons hquote hplain] at h
      exact ih h

theorem scanWord_blanks : scanWord blanks = ([], blanks) := by
  cases blanks with
  | nil => rfl
  | cons b rest =>
      have hb := hblanks b List.mem_cons_self
      have hdot : b ≠ '.' := by
        rintro rfl
        exact absurd hb (by decide)
      cases rest with
      | nil => simp [scanWord, isWordChar_of_isBlank hb]
      | cons d rest => simp [scanWord, isWordChar_of_isBlank hb, hdot]

theorem scanWord_append (cs : List Char) :
    scanWord (cs ++ blanks) = ((scanWord cs).1, (scanWord cs).2 ++ blanks) := by
  have hnone := scanWord_blanks hblanks
  fun_induction scanWord cs with
  | case1 => exact hnone
  | case2 c hc =>
      cases blanks with
      | nil => simp [scanWord, hc]
      | cons b rest => simp [scanWord, hc, hnone]
  | case3 c hc =>
      cases blanks with
      | nil => simp [scanWord, hc]
      | cons b rest =>
          have hb := isWordStart_of_isBlank (hblanks b List.mem_cons_self)
          simp [scanWord, hc, hb]
  | case4 c d rest hc name after heq ih =>
      rw [heq] at ih
      rw [List.cons_append, List.cons_append, scanWord, if_pos hc, ← List.cons_append, ih]
  | case5 c d rest hc =>
      rw [List.cons_append, List.cons_append, scanWord, if_neg hc]

theorem scanNumber_append (cs : List Char) :
    scanNumber (cs ++ blanks) =
      ((scanNumber cs).1, (scanNumber cs).2.1, (scanNumber cs).2.2 ++ blanks) := by
  have hdigit : ∀ c ∈ blanks, c.isDigit = false := fun c hc => isDigit_of_isBlank (hblanks c hc)
  unfold scanNumber
  rw [takeWhile_append_blanks hdigit, dropWhile_append_blanks hdigit]
  cases hrest : cs.dropWhile Char.isDigit with
  | nil =>
      cases blanks with
      | nil => rfl
      | cons b rest =>
          have hdot : b ≠ '.' := by
            rintro rfl
            exact absurd (hblanks _ List.mem_cons_self) (by decide)
          simp [hdot]
  | cons c rest =>
      by_cases hdot : c = '.'
      · subst hdot
        simp only [List.cons_append, takeWhile_append_blanks hdigit,
          dropWhile_append_blanks hdigit]
        split <;> rfl
      · simp [hdot]

/-- What a lexeme is does not depend on white space behind the source. -/
theorem first_append {c : Char} {cs : List Char} {lexeme : Lexeme} {taken after : List Char}
    (h : first c (cs ++ blanks) = .ok (lexeme, taken, after)) :
    ∃ rest, after = rest ++ blanks ∧ first c cs = .ok (lexeme, taken, rest) := by
  unfold first at h ⊢
  by_cases hquote : c = '"'
  · rw [if_pos hquote] at h ⊢
    split at h
    · next body after' hscan =>
      cases h
      obtain ⟨rest, hafter, hscan⟩ := scanText_append hblanks [] hscan
      refine ⟨rest, hafter, ?_⟩
      rw [hscan]
    · cases h
  · rw [if_neg hquote] at h ⊢
    split at h
    · next hc =>
      rw [← List.cons_append, scanNumber_append hblanks] at h
      cases h
      refine ⟨_, rfl, ?_⟩
      rw [if_pos hc]
    · next hc =>
      rw [if_neg hc]
      split at h
      · next hc =>
        rw [scanWord_append hblanks] at h
        cases h
        refine ⟨_, rfl, ?_⟩
        rw [if_pos hc]
      · next hc =>
        rw [if_neg hc]
        have htwo : (cs ++ blanks).head?.bind (ofTwo? c) = cs.head?.bind (ofTwo? c) := by
          cases cs with
          | cons d cs => rfl
          | nil =>
              cases blanks with
              | nil => rfl
              | cons b rest => exact ofTwo?_of_isBlank c (hblanks b List.mem_cons_self)
        rw [htwo] at h
        split at h
        · next found hfound =>
          cases cs with
          | nil => cases hfound
          | cons d cs =>
              cases h
              exact ⟨cs, rfl, rfl⟩
        · split at h
          · cases h
            exact ⟨cs, rfl, rfl⟩
          · cases h

end Blanks

/-! ## The source after a lexeme -/

theorem length_scanText {found cs body after : List Char}
    (h : scanText found cs = (body, some after)) : after.length < cs.length := by
  fun_induction scanText found cs with
  | case1 found => cases h
  | case2 found rest =>
      cases h
      simp
  | case3 found => cases h
  | case4 found rest => cases h
  | case5 found c rest hc ih =>
      have := ih h
      simp only [List.length_cons]
      omega
  | case6 found c rest _ _ _ ih =>
      have := ih h
      simp only [List.length_cons]
      omega

theorem length_scanWord (cs : List Char) : (scanWord cs).2.length ≤ cs.length := by
  fun_induction scanWord cs with
  | case1 => simp
  | case2 c hc => simp
  | case3 c hc => simp
  | case4 c d rest hc name after heq ih =>
      rw [heq] at ih
      simp only [List.length_cons] at ih ⊢
      omega
  | case5 c d rest hc => simp

theorem length_scanNumber {c : Char} (hc : c.isDigit = true) (rest : List Char) :
    (scanNumber (c :: rest)).2.2.length ≤ rest.length := by
  have hwhole : (c :: rest).dropWhile Char.isDigit = rest.dropWhile Char.isDigit := by
    rw [List.dropWhile_cons, if_pos hc]
  have hlength := (List.dropWhile_sublist Char.isDigit (l := rest)).length_le
  unfold scanNumber
  rw [hwhole]
  split
  · next later hlater =>
    rw [hlater] at hlength
    have := (List.dropWhile_sublist Char.isDigit (l := later)).length_le
    rw [List.length_cons] at hlength
    dsimp only
    split
    · rw [hlater, List.length_cons]
      exact hlength
    · dsimp only
      omega
  · exact hlength

/-- A lexeme takes at least the character it starts with. -/
theorem length_first {c : Char} {rest : List Char} {lexeme : Lexeme} {taken after : List Char}
    (h : first c rest = .ok (lexeme, taken, after)) : after.length ≤ rest.length := by
  unfold first at h
  split at h
  · split at h
    · next hscan =>
      cases h
      exact Nat.le_of_lt (length_scanText hscan)
    · cases h
  · split at h
    · next hc =>
      have := length_scanNumber hc rest
      cases hscan : scanNumber (c :: rest)
      rw [hscan] at h this
      cases h
      exact this
    · split at h
      · cases h
        exact length_scanWord rest
      · split at h
        · cases h
          simp
        · split at h
          · cases h
            exact Nat.le_refl _
          · cases h

end Lexeme

/-! ## Sources and their lexemes -/

/-- A source consists of lexemes, with spaces between them. -/
inductive Lexes : List Char → List Lexeme → Prop where
  | done {cs : List Char} (hspace : cs.dropWhile Lexeme.isSpace = []) : Lexes cs []
  | more {cs : List Char} {c : Char} {rest taken after : List Char} {lexeme : Lexeme}
      {later : List Lexeme} (hspace : cs.dropWhile Lexeme.isSpace = c :: rest)
      (hfirst : Lexeme.first c rest = .ok (lexeme, taken, after)) (hlater : Lexes after later) :
      Lexes cs (lexeme :: later)

/-- What is found in a source is what it consists of. -/
theorem lexes_of_lexFrom {bound offset : Nat} {cs : List Char} {pieces : List Piece}
    (hbound : cs.length < bound) (h : lexFrom bound offset cs = .ok pieces) :
    Lexes cs (pieces.map (·.lexeme)) := by
  induction bound generalizing offset cs pieces with
  | zero => omega
  | succ bound ih =>
      have hlength := (List.dropWhile_sublist Lexeme.isSpace (l := cs)).length_le
      unfold lexFrom at h
      dsimp only at h
      split at h
      · next hspace =>
        cases h
        exact .done hspace
      · next c rest hspace =>
        rw [hspace, List.length_cons] at hlength
        split at h
        · cases h
        · next lexeme taken after hfirst =>
          have hafter := Lexeme.length_first hfirst
          cases hlater : lexFrom bound
              (offset + byteSize (cs.takeWhile Lexeme.isSpace) + byteSize taken) after with
          | error fault =>
              rw [hlater] at h
              cases h
          | ok later =>
              rw [hlater] at h
              cases h
              exact .more hspace hfirst (ih (by omega) hlater)

/-- What a source consists of is found in it, from every offset. -/
theorem lexFrom_of_lexes {cs : List Char} {lexemes : List Lexeme} (h : Lexes cs lexemes)
    {bound : Nat} (hbound : cs.length < bound) (offset : Nat) :
    ∃ pieces, lexFrom bound offset cs = .ok pieces ∧ pieces.map (·.lexeme) = lexemes := by
  induction h generalizing bound offset with
  | @done cs hspace =>
      cases bound with
      | zero => omega
      | succ bound =>
          unfold lexFrom
          dsimp only
          rw [hspace]
          exact ⟨[], rfl, rfl⟩
  | @more cs c rest taken after lexeme later hspace hfirst hlater ih =>
      cases bound with
      | zero => omega
      | succ bound =>
          have hlength := (List.dropWhile_sublist Lexeme.isSpace (l := cs)).length_le
          have hafter := Lexeme.length_first hfirst
          rw [hspace, List.length_cons] at hlength
          obtain ⟨pieces, hpieces, hmap⟩ := @ih bound (by omega)
            (offset + byteSize (cs.takeWhile Lexeme.isSpace) + byteSize taken)
          unfold lexFrom
          dsimp only
          rw [hspace]
          dsimp only
          rw [hfirst]
          dsimp only
          rw [hpieces]
          exact ⟨_, rfl, by rw [← hmap]; rfl⟩

namespace Lexes

open Text

/-- White space in front of a source is a space between lexemes, since no lexeme starts with
it, and it can be dropped. -/
theorem of_blank_cons {b : Char} {cs : List Char} {lexemes : List Lexeme}
    (hb : isBlank b = true) (h : Lexes (b :: cs) lexemes) :
    Lexeme.isSpace b = true ∧ Lexes cs lexemes := by
  by_cases hspace : Lexeme.isSpace b = true
  · have hdrop : (b :: cs).dropWhile Lexeme.isSpace = cs.dropWhile Lexeme.isSpace := by
      rw [List.dropWhile_cons, if_pos hspace]
    refine ⟨hspace, ?_⟩
    cases h with
    | done hdone => exact .done (hdrop ▸ hdone)
    | more hmore hfirst hlater => exact .more (hdrop ▸ hmore) hfirst hlater
  · have hdrop : (b :: cs).dropWhile Lexeme.isSpace = b :: cs := by
      rw [List.dropWhile_cons, if_neg hspace]
    cases h with
    | done hdone =>
        rw [hdrop] at hdone
        cases hdone
    | more hmore hfirst hlater =>
        rw [hdrop] at hmore
        cases hmore
        rw [Lexeme.first_of_isBlank hb] at hfirst
        cases hfirst

theorem of_blanks_append {blanks cs : List Char} {lexemes : List Lexeme}
    (hblanks : ∀ c ∈ blanks, isBlank c = true) (h : Lexes (blanks ++ cs) lexemes) :
    (∀ c ∈ blanks, Lexeme.isSpace c = true) ∧ Lexes cs lexemes := by
  induction blanks with
  | nil => exact ⟨nofun, h⟩
  | cons b rest ih =>
      obtain ⟨hb, hrest⟩ := List.forall_mem_cons.mp hblanks
      obtain ⟨hspace, htail⟩ := of_blank_cons hb h
      obtain ⟨hspaces, hcs⟩ := ih hrest htail
      exact ⟨List.forall_mem_cons.mpr ⟨hspace, hspaces⟩, hcs⟩

/-- White space behind a source is left over by all of its lexemes.  So it is spaces between
lexemes, and it can be dropped. -/
theorem of_append_blanks {blanks cs : List Char} {lexemes : List Lexeme}
    (hblanks : ∀ c ∈ blanks, isBlank c = true) (h : Lexes (cs ++ blanks) lexemes) :
    (∀ c ∈ blanks, Lexeme.isSpace c = true) ∧ Lexes cs lexemes := by
  generalize hwhole : cs ++ blanks = whole at h
  induction h generalizing cs with
  | done hspace =>
      subst hwhole
      have htaken : (cs ++ blanks).takeWhile Lexeme.isSpace = cs ++ blanks := by
        rw [← List.append_nil (List.takeWhile ..), ← hspace, List.takeWhile_append_dropWhile]
      have hall : ∀ c ∈ cs ++ blanks, Lexeme.isSpace c = true := by
        rw [← htaken]
        exact List.all_eq_true.mp List.all_takeWhile
      refine ⟨(List.forall_mem_append.mp hall).2, ?_⟩
      rw [List.dropWhile_append] at hspace
      cases hcs : cs.dropWhile Lexeme.isSpace with
      | nil => exact .done hcs
      | cons c rest =>
          rw [hcs] at hspace
          cases hspace
  | @more _ c rest taken after lexeme later hspace hfirst hlater ih =>
      subst hwhole
      rw [List.dropWhile_append] at hspace
      cases hcs : cs.dropWhile Lexeme.isSpace with
      | nil =>
          -- All that is left starts with white space, where no lexeme does.
          rw [hcs] at hspace
          have hleft : blanks.dropWhile Lexeme.isSpace = c :: rest := hspace
          have hmem : c ∈ blanks.dropWhile Lexeme.isSpace := hleft ▸ List.mem_cons_self
          have hblank := hblanks c ((List.dropWhile_sublist _).subset hmem)
          rw [Lexeme.first_of_isBlank hblank] at hfirst
          cases hfirst
      | cons d ds =>
          rw [hcs] at hspace
          cases hspace
          obtain ⟨after', rfl, hfirst'⟩ := Lexeme.first_append hblanks hfirst
          obtain ⟨hbehind, hafter⟩ := ih rfl
          exact ⟨hbehind, .more hcs hfirst' hafter⟩

/-- Trimming a source keeps its lexemes. -/
theorem trimChars {cs : List Char} {lexemes : List Lexeme} (h : Lexes cs lexemes) :
    Lexes (trimChars cs) lexemes := by
  obtain ⟨front, back, hcs, hfront, hback⟩ := exists_blanks cs
  rw [hcs] at h
  exact (of_append_blanks hback (of_blanks_append hfront h).2).2

end Lexes

/-! ## Lexemes and tokens -/

theorem isCalled_congr {pieces others : List Piece}
    (h : others.map (·.lexeme) = pieces.map (·.lexeme)) : isCalled others = isCalled pieces := by
  cases pieces with
  | nil =>
      obtain rfl := List.map_eq_nil_iff.mp h
      rfl
  | cons piece rest =>
      cases others with
      | nil => cases h
      | cons other others =>
          have hlexeme : other.lexeme = piece.lexeme := (List.cons.inj h).1
          simp only [isCalled, hlexeme]

/-- Only the lexeme of a piece matters, as long as it makes a token. -/
theorem tokenOf_congr {symbols : Symbols} {previous : Option Token} {piece other : Piece}
    {called : Bool} {token : Token} (hlexeme : other.lexeme = piece.lexeme)
    (h : tokenOf symbols previous piece called = .ok token) :
    tokenOf symbols previous other called = .ok token := by
  unfold tokenOf at h ⊢
  rw [hlexeme]
  cases hpiece : piece.lexeme with
  | arrow =>
      rw [hpiece] at h
      cases h
  | _ =>
      rw [hpiece] at h
      exact h

theorem tokensOf_path {symbols : Symbols} {size : Nat} {previous : Option Token} {piece : Piece}
    {name : List Char} (hname : piece.lexeme = .word name) (rest : List Piece) :
    tokensOf symbols size previous true (piece :: rest) =
      (do
        let token := Token.path (String.ofList name)
        return token :: (← tokensOf symbols size (some token) false rest)) := by
  rw [tokensOf.eq_def]
  dsimp only
  rw [if_pos rfl, hname]

theorem tokensOf_arrow {symbols : Symbols} {size : Nat} {previous : Option Token} {piece : Piece}
    (harrow : piece.lexeme = .arrow) (rest : List Piece) :
    tokensOf symbols size previous false (piece :: rest) =
      tokensOf symbols size previous true rest := by
  rw [tokensOf.eq_def]
  dsimp only
  rw [if_neg Bool.false_ne_true, harrow]

theorem tokensOf_opening {symbols : Symbols} {size : Nat} {previous : Option Token}
    {piece : Piece} (hopen : piece.lexeme = .openParen) (next : Piece) (later : List Piece) :
    tokensOf symbols size previous false (piece :: next :: later) =
      if next.lexeme = .closeParen && !(previous.any Token.isFunction) then do
        let token := Token.list .empty
        return token :: (← tokensOf symbols size (some token) false later)
      else do
        let token := Token.punct .opening
        return token :: (← tokensOf symbols size (some token) false (next :: later)) := by
  rw [tokensOf.eq_def]
  dsimp only
  rw [if_neg Bool.false_ne_true, hopen]

theorem tokensOf_other {symbols : Symbols} {size : Nat} {previous : Option Token}
    {piece : Piece} {rest : List Piece} (harrow : piece.lexeme ≠ .arrow)
    (hopen : piece.lexeme = .openParen → rest = []) :
    tokensOf symbols size previous false (piece :: rest) =
      (do
        let token ← tokenOf symbols previous piece (isCalled rest)
        return token :: (← tokensOf symbols size (some token) false rest)) := by
  rw [tokensOf.eq_def]
  dsimp only
  rw [if_neg Bool.false_ne_true]
  split
  · next hpiece => exact absurd hpiece harrow
  · next next later hpiece => cases hopen hpiece
  · rfl

/-- Only the lexemes of pieces matter, as long as they make tokens. -/
theorem tokensOf_congr {symbols : Symbols} {size size' : Nat} {previous : Option Token}
    {inPath : Bool} {pieces others : List Piece} {tokens : List Token}
    (hmap : others.map (·.lexeme) = pieces.map (·.lexeme))
    (h : tokensOf symbols size previous inPath pieces = .ok tokens) :
    tokensOf symbols size' previous inPath others = .ok tokens := by
  fun_induction tokensOf symbols size previous inPath pieces generalizing others tokens with
  | case1 => cases h
  | case2 previous inPath hpath =>
      obtain rfl := List.map_eq_nil_iff.mp hmap
      rw [tokensOf, if_neg hpath]
      exact h
  | case3 previous piece rest name hname token =>
      rename_i ih
      obtain ⟨other, later, rfl, hlexeme, hlater⟩ := List.map_eq_cons_iff.mp hmap
      obtain ⟨tail, htail, hcons⟩ := Outcome.of_bind_eq_ok h
      rw [tokensOf_path (hlexeme.trans hname)]
      dsimp only
      rw [ih hlater htail]
      exact hcons
  | case4 => cases h
  | case5 previous inPath piece hpath rest harrow ih =>
      obtain ⟨other, later, rfl, hlexeme, hlater⟩ := List.map_eq_cons_iff.mp hmap
      obtain rfl := eq_false_of_ne_true hpath
      rw [tokensOf_arrow (hlexeme.trans harrow)]
      exact ih hlater h
  | case6 previous inPath piece hpath next later hopen hempty token =>
      rename_i ih
      obtain ⟨other, rest, rfl, hlexeme, hrest⟩ := List.map_eq_cons_iff.mp hmap
      obtain ⟨next', later', rfl, hnext, hlater⟩ := List.map_eq_cons_iff.mp hrest
      obtain ⟨tail, htail, hcons⟩ := Outcome.of_bind_eq_ok h
      obtain rfl := eq_false_of_ne_true hpath
      rw [tokensOf_opening (hlexeme.trans hopen), hnext, if_pos hempty]
      dsimp only
      rw [ih hlater htail]
      exact hcons
  | case7 previous inPath piece hpath next later hopen hempty token =>
      rename_i ih
      obtain ⟨other, rest, rfl, hlexeme, hrest⟩ := List.map_eq_cons_iff.mp hmap
      obtain ⟨next', later', rfl, hnext, hlater⟩ := List.map_eq_cons_iff.mp hrest
      obtain ⟨tail, htail, hcons⟩ := Outcome.of_bind_eq_ok h
      obtain rfl := eq_false_of_ne_true hpath
      rw [tokensOf_opening (hlexeme.trans hopen), hnext, if_neg hempty]
      dsimp only
      rw [ih hrest htail]
      exact hcons
  | case8 previous inPath piece hpath rest harrow hopen ih =>
      obtain ⟨other, later, rfl, hlexeme, hlater⟩ := List.map_eq_cons_iff.mp hmap
      obtain ⟨token, htoken, h⟩ := Outcome.of_bind_eq_ok h
      obtain ⟨tail, htail, hcons⟩ := Outcome.of_bind_eq_ok h
      obtain rfl := eq_false_of_ne_true hpath
      have harrow' : other.lexeme ≠ .arrow := fun hother => harrow (hlexeme.symm.trans hother)
      have hopen' : other.lexeme = .openParen → later = [] := by
        intro hother
        cases rest with
        | nil => exact List.map_eq_nil_iff.mp hlater
        | cons next rest => exact absurd rfl (hopen next rest (hlexeme.symm.trans hother))
      rw [tokensOf_other harrow' hopen', isCalled_congr hlater, tokenOf_congr hlexeme htoken]
      show (tokensOf symbols size' (some token) false later >>= _) = _
      rw [ih token hlater htail]
      exact hcons

/-- The tokens of a source are those of the source without white space around it. -/
theorem tokenize_trim {symbols : Symbols} {source : String} {tokens : List Token}
    (h : tokenize symbols source = .ok tokens) :
    tokenize symbols (Text.trim source) = .ok tokens := by
  obtain ⟨pieces, hpieces, h⟩ := Outcome.of_bind_eq_ok h
  obtain ⟨plain, hplain, h⟩ := Outcome.of_bind_eq_ok h
  have hlexes := lexes_of_lexFrom (Nat.lt_succ_self _) hpieces
  obtain ⟨others, hothers, hmap⟩ :=
    lexFrom_of_lexes hlexes.trimChars (Nat.lt_succ_self _) 0
  unfold tokenize Text.trim
  dsimp only
  rw [String.toList_ofList, lex, hothers]
  show (tokensOf symbols _ none false others >>= _) = _
  rw [tokensOf_congr hmap hplain]
  exact h

/-- An expression is read again from its source as it was. -/
theorem Expression.parse_source {symbols : Symbols} {source : String} {e : Expression}
    (h : parse symbols source = .ok e) : parse symbols e.source = .ok e := by
  obtain ⟨tokens, htokens, h⟩ := Outcome.of_bind_eq_ok h
  unfold parse
  cases hempty : tokens.isEmpty with
  | true =>
      rw [hempty] at h
      cases h
  | false =>
      rw [hempty] at h
      obtain ⟨order, horder, h⟩ := Outcome.of_bind_eq_ok h
      cases h
      rw [tokenize_trim htokens, Text.trim_trim]
      show (if tokens.isEmpty = true then _ else _) = _
      rw [hempty]
      show (postorder tokens >>= _) = _
      rw [horder]
      rfl

end Skein
