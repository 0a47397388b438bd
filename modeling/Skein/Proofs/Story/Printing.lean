import Skein.Proofs.Text.Words
import Skein.Story.Output

set_option autoImplicit false

/-!
# Story: what is printed is what is read

An output is printed on and read from in any order.  Ending a line, opening it again and ending
whatever is being built move text and tags between the finished lines and the line being built, and
reading takes the oldest line away.  None of it loses anything that shows, doubles it or changes its
order.

Glue overwrites the line being built with the line that it opens.  That is safe because a line can
be opened again only right after it has ended, when nothing is being built.
-/

namespace Skein

/-- The text of a line is made of words with one space between each two, and if there are none the
line has tags. -/
structure Line.Tidy (line : Line) : Prop where
  spaced : Text.IsSpaced line.text
  filled : line.text = "" → line.tags ≠ []

namespace Output

theorem reopen_of_lines {o : Output} {lines : List Line} {line : Line}
    (h : o.lines = lines ++ [line]) :
    o.reopen = { o with lines := lines, current := line.text, tags := line.tags } := by
  unfold reopen
  rw [h, List.getLast?_concat, List.dropLast_concat]

theorem popLine_nil {o : Output} (h : o.lines = []) : o.popLine = (none, o) := by
  unfold popLine
  rw [h]

theorem popLine_cons {o : Output} {line : Line} {rest : List Line} (h : o.lines = line :: rest) :
    o.popLine = (some line, { o with lines := rest }) := by
  unfold popLine
  rw [h]

/-! ## What is in an output -/

/-- What shows of some lines, in order. -/
def visibleOf (lines : List Line) : List Char := lines.flatMap fun line => Text.visible line.text

/-- The tags of some lines, in order. -/
def tagsOf (lines : List Line) : List String := lines.flatMap (·.tags)

/-- What shows of the finished lines and then of the line being built. -/
def visible (o : Output) : List Char := visibleOf o.lines ++ Text.visible o.current

/-- The tags of the finished lines and then of the line being built. -/
def allTags (o : Output) : List String := tagsOf o.lines ++ o.tags

theorem visibleOf_concat (lines : List Line) (line : Line) :
    visibleOf (lines ++ [line]) = visibleOf lines ++ Text.visible line.text := by
  rw [visibleOf, List.flatMap_append, List.flatMap_singleton]
  rfl

theorem tagsOf_concat (lines : List Line) (line : Line) :
    tagsOf (lines ++ [line]) = tagsOf lines ++ line.tags := by
  rw [tagsOf, List.flatMap_append, List.flatMap_singleton]
  rfl

/-- Nothing is being built where the last line could be opened again, and every finished line is
tidy. -/
structure Sound (o : Output) : Prop where
  bare : o.reopenable = true → o.current = "" ∧ o.tags = []
  tidy : ∀ line ∈ o.lines, line.Tidy

theorem sound_new : Sound {} where
  bare h := nomatch h
  tidy _ h := nomatch h

/-- Where the last line cannot be opened again, the line being built may be anything. -/
theorem sound_of_closed {o : Output} (hclosed : o.reopenable = false)
    (htidy : ∀ line ∈ o.lines, line.Tidy) : o.Sound where
  bare hopen := by
    rw [hclosed] at hopen
    cases hopen
  tidy := htidy

/-! ## Text and tags are added at the end -/

theorem visible_pushText (o : Output) (text : String) :
    (o.pushText text).visible = o.visible ++ Text.visible text := by
  unfold pushText
  split
  · next hempty =>
      rw [String.isEmpty_iff.mp hempty]
      exact (List.append_nil _).symm
  · rw [visible, Text.visible_append, ← List.append_assoc]
    rfl

theorem allTags_pushText (o : Output) (text : String) :
    (o.pushText text).allTags = o.allTags := by
  unfold pushText
  split
  · rfl
  · rfl

theorem Sound.pushText {o : Output} (h : o.Sound) (text : String) : (o.pushText text).Sound := by
  unfold Output.pushText
  split
  · exact h
  · exact sound_of_closed rfl h.tidy

theorem allTags_pushTag (o : Output) (tag : String) :
    (o.pushTag tag).allTags = o.allTags ++ [Text.trim tag] :=
  (List.append_assoc _ _ _).symm

theorem Sound.pushTag {o : Output} (h : o.Sound) (tag : String) : (o.pushTag tag).Sound :=
  sound_of_closed rfl h.tidy

/-! ## Ending lines -/

theorem visible_complete (o : Output) : o.complete.visible = o.visible := by
  rw [visible, complete, visibleOf_concat, Text.visible_collapse]
  exact List.append_nil _

theorem allTags_complete (o : Output) : o.complete.allTags = o.allTags := by
  rw [allTags, complete, tagsOf_concat]
  exact List.append_nil _

/-- A line that shows something is tidy when it has ended. -/
theorem Sound.tidy_complete {o : Output} (h : o.Sound)
    (hshows : Text.isInvisible o.current = false) : ∀ line ∈ o.complete.lines, line.Tidy := by
  intro line hline
  rcases List.mem_append.mp hline with hline | hline
  · exact h.tidy line hline
  · obtain rfl := List.mem_singleton.mp hline
    exact ⟨Text.isSpaced_collapse _, fun hempty => absurd hempty (Text.collapse_ne_empty hshows)⟩

theorem visible_lineBreak (o : Output) : o.lineBreak.visible = o.visible := by
  unfold lineBreak
  split
  · rfl
  · exact visible_complete o

theorem allTags_lineBreak (o : Output) : o.lineBreak.allTags = o.allTags := by
  unfold lineBreak
  split
  · rfl
  · exact allTags_complete o

theorem Sound.lineBreak {o : Output} (h : o.Sound) : o.lineBreak.Sound := by
  unfold Output.lineBreak
  split
  · exact h
  · next hends =>
      rw [Bool.or_eq_true, not_or, Bool.not_eq_true, Bool.not_eq_true] at hends
      exact ⟨fun _ => ⟨rfl, rfl⟩, h.tidy_complete hends.2⟩

/-- White space at the end may go when tags make a line of their own. -/
theorem visible_flush (o : Output) : o.flush.visible = o.visible := by
  unfold flush
  dsimp only
  split
  · exact visible_complete o
  · next hhidden =>
      rw [Bool.not_eq_true', Bool.not_eq_false] at hhidden
      split
      · rfl
      · rw [visible, visible, visibleOf_concat, Text.visible_of_isInvisible hhidden]
        exact List.append_nil _

theorem allTags_flush (o : Output) : o.flush.allTags = o.allTags := by
  unfold flush
  dsimp only
  split
  · exact allTags_complete o
  · split
    · rfl
    · rw [allTags, tagsOf_concat]
      exact List.append_nil _

/-- Nothing is left of the line being built that shows. -/
theorem bare_flush (o : Output) : Text.visible o.flush.current = [] ∧ o.flush.tags = [] := by
  unfold flush
  dsimp only
  split
  · exact ⟨rfl, rfl⟩
  · next hhidden =>
      rw [Bool.not_eq_true', Bool.not_eq_false] at hhidden
      split
      · next htags => exact ⟨Text.visible_of_isInvisible hhidden, List.isEmpty_iff.mp htags⟩
      · exact ⟨rfl, rfl⟩

theorem Sound.flush {o : Output} (h : o.Sound) : o.flush.Sound := by
  refine sound_of_closed rfl ?_
  unfold Output.flush
  dsimp only
  split
  · next hshows =>
      rw [Bool.not_eq_true'] at hshows
      exact h.tidy_complete hshows
  · split
    · exact h.tidy
    · next htags =>
        intro line hline
        rcases List.mem_append.mp hline with hline | hline
        · exact h.tidy line hline
        · obtain rfl := List.mem_singleton.mp hline
          exact ⟨⟨[], by simp, rfl⟩, fun _ hnil => htags (List.isEmpty_iff.mpr hnil)⟩

/-! ## Opening the last line again -/

/-- Glue leaves what there is, or it opens the last of the finished lines, and then nothing was
being built. -/
theorem Sound.glue_cases {o : Output} (h : o.Sound) :
    o.glue = { o with reopenable := false, glued := true } ∨
      ∃ lines line, o.lines = lines ++ [line] ∧ o.current = "" ∧ o.tags = [] ∧
        o.glue = { lines := lines, current := line.text, tags := line.tags
                   reopenable := false, glued := true } := by
  unfold Output.glue
  dsimp only
  split
  · next hopen =>
      rw [Bool.and_eq_true] at hopen
      obtain ⟨hcurrent, htags⟩ := h.bare hopen.1
      rcases o.lines.eq_nil_or_concat with hnil | ⟨lines, line, hlines⟩
      · -- The line that had just ended has been taken away.
        have hkept : o.reopen = o := by
          unfold reopen
          rw [hnil]
          rfl
        rw [hkept]
        exact .inl rfl
      · rw [List.concat_eq_append] at hlines
        refine .inr ⟨lines, line, hlines, hcurrent, htags, ?_⟩
        rw [reopen_of_lines hlines]
  · exact .inl rfl

theorem Sound.visible_glue {o : Output} (h : o.Sound) : o.glue.visible = o.visible := by
  rcases h.glue_cases with hglue | ⟨lines, line, hlines, hcurrent, _, hglue⟩
  · rw [hglue]
    rfl
  · rw [hglue, visible, visible, hlines, hcurrent, visibleOf_concat]
    exact (List.append_nil _).symm

theorem Sound.allTags_glue {o : Output} (h : o.Sound) : o.glue.allTags = o.allTags := by
  rcases h.glue_cases with hglue | ⟨lines, line, hlines, _, htags, hglue⟩
  · rw [hglue]
    rfl
  · rw [hglue, allTags, allTags, hlines, htags, tagsOf_concat]
    exact (List.append_nil _).symm

theorem Sound.glue {o : Output} (h : o.Sound) : o.glue.Sound := by
  rcases h.glue_cases with hglue | ⟨lines, line, hlines, _, _, hglue⟩
  · rw [hglue]
    exact sound_of_closed rfl h.tidy
  · rw [hglue]
    refine sound_of_closed rfl fun other hother => h.tidy other ?_
    rw [hlines]
    exact List.mem_append_left _ hother

/-! ## Taking lines away -/

theorem visible_popLine (o : Output) :
    visibleOf o.popLine.1.toList ++ o.popLine.2.visible = o.visible := by
  cases hlines : o.lines with
  | nil =>
      rw [popLine_nil hlines]
      rfl
  | cons line rest =>
      rw [popLine_cons hlines, visible, visible, hlines, ← List.append_assoc]
      exact congrArg (· ++ _) List.flatMap_append.symm

theorem allTags_popLine (o : Output) :
    tagsOf o.popLine.1.toList ++ o.popLine.2.allTags = o.allTags := by
  cases hlines : o.lines with
  | nil =>
      rw [popLine_nil hlines]
      rfl
  | cons line rest =>
      rw [popLine_cons hlines, allTags, allTags, hlines, ← List.append_assoc]
      exact congrArg (· ++ _) List.flatMap_append.symm

theorem Sound.popLine {o : Output} (h : o.Sound) :
    o.popLine.2.Sound ∧ ∀ line ∈ o.popLine.1, line.Tidy := by
  cases hlines : o.lines with
  | nil =>
      rw [popLine_nil hlines]
      exact ⟨h, by simp⟩
  | cons line rest =>
      have htidy := h.tidy
      rw [hlines] at htidy
      rw [popLine_cons hlines]
      refine ⟨⟨h.bare, fun other hother => htidy other (List.mem_cons_of_mem _ hother)⟩, ?_⟩
      intro other hother
      rw [← Option.some.inj hother]
      exact htidy line List.mem_cons_self

/-! ## Printing and reading in any order -/

/-- What is done to an output. -/
inductive Act where
  | pushText (text : String)
  | pushTag (tag : String)
  | lineBreak
  | glue
  | flush
  | popLine

/-- What an act prints that shows. -/
def Act.visible : Act → List Char
  | .pushText text => Text.visible text
  | _ => []

/-- The tags that an act attaches. -/
def Act.tags : Act → List String
  | .pushTag tag => [Text.trim tag]
  | _ => []

/-- An output with the lines that were taken away from it, oldest first. -/
structure Reading where
  taken : List Line := []
  output : Output := {}

namespace Reading

/-- Does something to the output, and keeps the line if one is taken away. -/
def act (r : Reading) : Act → Reading
  | .pushText text => { r with output := r.output.pushText text }
  | .pushTag tag => { r with output := r.output.pushTag tag }
  | .lineBreak => { r with output := r.output.lineBreak }
  | .glue => { r with output := r.output.glue }
  | .flush => { r with output := r.output.flush }
  | .popLine =>
    { taken := r.taken ++ r.output.popLine.1.toList, output := r.output.popLine.2 }

/-- What is there after some acts on a new output. -/
def ofActs (acts : List Act) : Reading := acts.foldl act {}

/-- What shows of the lines taken away, of the finished lines and of the line being built. -/
def visible (r : Reading) : List Char := visibleOf r.taken ++ r.output.visible

/-- The tags of the lines taken away, of the finished lines and of the line being built. -/
def tags (r : Reading) : List String := tagsOf r.taken ++ r.output.allTags

/-- The output is sound, and what was taken away is tidy. -/
structure Sound (r : Reading) : Prop where
  output : r.output.Sound
  taken : ∀ line ∈ r.taken, line.Tidy

theorem visible_withOutput {r : Reading} {o : Output} {added : List Char}
    (h : o.visible = r.output.visible ++ added) :
    visible { r with output := o } = r.visible ++ added := by
  rw [visible, visible, List.append_assoc, h]

theorem tags_withOutput {r : Reading} {o : Output} {added : List String}
    (h : o.allTags = r.output.allTags ++ added) :
    tags { r with output := o } = r.tags ++ added := by
  rw [tags, tags, List.append_assoc, h]

theorem visible_act {r : Reading} (h : r.Sound) (act : Act) :
    (r.act act).visible = r.visible ++ act.visible := by
  have hnone := (List.append_nil r.output.visible).symm
  cases act with
  | pushText text => exact visible_withOutput (r.output.visible_pushText text)
  | pushTag tag => exact visible_withOutput hnone
  | lineBreak => exact visible_withOutput (r.output.visible_lineBreak.trans hnone)
  | glue => exact visible_withOutput (h.output.visible_glue.trans hnone)
  | flush => exact visible_withOutput (r.output.visible_flush.trans hnone)
  | popLine =>
      have hprints : Act.visible .popLine = [] := rfl
      rw [hprints, List.append_nil, act, visible, visible, visibleOf, List.flatMap_append,
        List.append_assoc]
      exact congrArg (visibleOf r.taken ++ ·) r.output.visible_popLine

theorem tags_act {r : Reading} (h : r.Sound) (act : Act) :
    (r.act act).tags = r.tags ++ act.tags := by
  have hnone := (List.append_nil r.output.allTags).symm
  cases act with
  | pushText text => exact tags_withOutput ((r.output.allTags_pushText text).trans hnone)
  | pushTag tag => exact tags_withOutput (r.output.allTags_pushTag tag)
  | lineBreak => exact tags_withOutput (r.output.allTags_lineBreak.trans hnone)
  | glue => exact tags_withOutput (h.output.allTags_glue.trans hnone)
  | flush => exact tags_withOutput (r.output.allTags_flush.trans hnone)
  | popLine =>
      have hattaches : Act.tags .popLine = [] := rfl
      rw [hattaches, List.append_nil, act, tags, tags, tagsOf, List.flatMap_append,
        List.append_assoc]
      exact congrArg (tagsOf r.taken ++ ·) r.output.allTags_popLine

theorem Sound.act {r : Reading} (h : r.Sound) (act : Act) : (r.act act).Sound := by
  cases act with
  | pushText text => exact ⟨h.output.pushText text, h.taken⟩
  | pushTag tag => exact ⟨h.output.pushTag tag, h.taken⟩
  | lineBreak => exact ⟨h.output.lineBreak, h.taken⟩
  | glue => exact ⟨h.output.glue, h.taken⟩
  | flush => exact ⟨h.output.flush, h.taken⟩
  | popLine =>
      obtain ⟨houtput, hline⟩ := h.output.popLine
      refine ⟨houtput, fun line hmem => ?_⟩
      rcases List.mem_append.mp hmem with hmem | hmem
      · exact h.taken line hmem
      · exact hline line (Option.mem_toList.mp hmem)

/-- What acts do, from wherever they start. -/
theorem Sound.foldl_act {r : Reading} (h : r.Sound) (acts : List Act) :
    (acts.foldl Reading.act r).visible = r.visible ++ acts.flatMap Act.visible ∧
      (acts.foldl Reading.act r).tags = r.tags ++ acts.flatMap Act.tags ∧
      (acts.foldl Reading.act r).Sound := by
  induction acts generalizing r with
  | nil => exact ⟨(List.append_nil _).symm, (List.append_nil _).symm, h⟩
  | cons act rest ih =>
      obtain ⟨hvisible, htags, hsound⟩ := ih (h.act act)
      rw [List.foldl_cons, List.flatMap_cons, List.flatMap_cons, ← List.append_assoc,
        ← List.append_assoc, ← visible_act h act, ← tags_act h act]
      exact ⟨hvisible, htags, hsound⟩

/-- Whatever is done to a new output, in whatever order: what shows of the texts that were printed
is what shows of the lines taken away, of the finished lines and of the line being built; the tags
that were attached, trimmed, are the tags of these; and every line that was taken away is made of
words with one space between each two, and has some unless it has tags.  After a flush all of it is
in lines that were taken away or are finished. -/
theorem printed_of_acts (acts : List Act) :
    acts.flatMap Act.visible = (ofActs acts).visible ∧
      acts.flatMap Act.tags = (ofActs acts).tags ∧
      (∀ line ∈ (ofActs acts).taken,
        Text.IsSpaced line.text ∧ (line.text = "" → line.tags ≠ [])) ∧
      Text.visible (ofActs (acts ++ [.flush])).output.current = [] ∧
      (ofActs (acts ++ [.flush])).output.tags = [] := by
  have hnew : Sound {} := ⟨sound_new, by simp⟩
  obtain ⟨hvisible, htags, hsound⟩ := hnew.foldl_act acts
  refine ⟨hvisible.symm, htags.symm, fun line hline => ?_, ?_⟩
  · exact ⟨(hsound.taken line hline).spaced, (hsound.taken line hline).filled⟩
  · rw [ofActs, List.foldl_append]
    exact bare_flush _

end Reading

end Output

end Skein
