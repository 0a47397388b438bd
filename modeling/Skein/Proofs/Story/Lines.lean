import Skein.Proofs.Story.Blindness
import Skein.Proofs.Story.Printing

set_option autoImplicit false

/-!
# Story: lines that have been taken away

Reading takes finished lines away from the output while more is printed.  Compared with an output
from which nothing is taken, the lines taken away are all that is missing, and what is printed later
is printed on both alike, with one exception: glue opens the last finished line again, and if that
line has been taken away there is nothing to open.

Where that happens it leaves a trace.  A line that was opened again can be ended only once something
that shows has been added, so it never comes back as it was.  An output that still has every
finished line, and cannot open the last of them, has opened none of them in between.
-/

namespace Skein

namespace Output

/-! ## Outputs from which lines are missing -/

/-- The second output is the first without its oldest lines. -/
def Ahead (taken : List Line) (o p : Output) : Prop := o = { p with lines := taken ++ p.lines }

namespace Ahead

variable {taken : List Line} {o p : Output}

theorem pushText (h : Ahead taken o p) (text : String) :
    Ahead taken (o.pushText text) (p.pushText text) := by
  obtain rfl := h
  unfold Output.pushText
  split <;> rfl

theorem pushTag (h : Ahead taken o p) (tag : String) :
    Ahead taken (o.pushTag tag) (p.pushTag tag) := by
  obtain rfl := h
  rfl

theorem lineBreak (h : Ahead taken o p) : Ahead taken o.lineBreak p.lineBreak := by
  obtain rfl := h
  unfold Output.lineBreak
  split
  · rfl
  · simp [Ahead, Output.complete]

theorem flush (h : Ahead taken o p) : Ahead taken o.flush p.flush := by
  obtain rfl := h
  unfold Output.flush
  dsimp only
  split
  · simp [Ahead, Output.complete]
  · split
    · rfl
    · simp [Ahead]

/-- Glue does the same to both outputs as long as the line that it would open has not been taken
away. -/
theorem glue (h : Ahead taken o p) (hfirm : p.reopenable = true → p.lines = [] → taken = []) :
    Ahead taken o.glue p.glue := by
  obtain rfl := h
  unfold Output.glue
  dsimp only
  split
  · next hopen =>
      rw [Bool.and_eq_true] at hopen
      rcases p.lines.eq_nil_or_concat with hnil | ⟨lines, line, hlines⟩
      · rw [hfirm hopen.1 hnil]
        rfl
      · rw [List.concat_eq_append] at hlines
        have htaken : taken ++ p.lines = (taken ++ lines) ++ [line] := by
          rw [hlines, List.append_assoc]
        rw [reopen_of_lines hlines, reopen_of_lines htaken]
        rfl
  · rfl

end Ahead

/-- The second output is the first without its oldest lines, and none of these can be opened
again. -/
structure Leads (taken : List Line) (o p : Output) : Prop where
  ahead : Ahead taken o p
  firm : p.reopenable = true → p.lines = [] → taken = []

theorem leads_self (o : Output) : Leads [] o o := ⟨rfl, fun _ _ => rfl⟩

/-- What is printed leaves alone what can no longer be opened. -/
theorem stable_leads (taken : List Line) : Stable (Leads taken) where
  pushText text h := by
    refine ⟨h.ahead.pushText text, ?_⟩
    have hfirm := h.firm
    unfold Output.pushText
    split
    · exact hfirm
    · nofun
  pushTag tag h := ⟨h.ahead.pushTag tag, nofun⟩
  lineBreak h := by
    refine ⟨h.ahead.lineBreak, ?_⟩
    have hfirm := h.firm
    unfold Output.lineBreak
    split
    · exact hfirm
    · simp [Output.complete]
  glue h := ⟨h.ahead.glue h.firm, nofun⟩

theorem closing_leads (taken : List Line) : Closing (Leads taken) :=
  fun _ _ h => ⟨h.ahead.flush, nofun⟩

/-! ## Lines that are opened again -/

/-- Behind some lines stands one that shows more than a given one, or it is being built and cannot
be ended before it does. -/
inductive Grown (before : List Line) (line : Line) (o : Output) : Prop where
  | building (hlines : o.lines = before) (hclosed : o.reopenable = false)
      (hink : Text.ink line.text ≤ Text.ink o.current)
      (hglued : o.glued = false → Text.ink line.text < Text.ink o.current)
  | finished {grown : Line} {rest : List Line} (hlines : o.lines = before ++ grown :: rest)
      (hink : Text.ink line.text < Text.ink grown.text)

namespace Grown

variable {before : List Line} {line : Line} {o : Output}

theorem pushText (h : Grown before line o) (text : String) :
    Grown before line (o.pushText text) := by
  unfold Output.pushText
  split
  · exact h
  cases h with
  | finished hlines hink => exact .finished hlines hink
  | building hlines hclosed hink hglued =>
      refine .building hlines rfl ?_ ?_
      · rw [Text.ink_append]
        omega
      · intro hunglued
        rw [Text.ink_append]
        cases hg : o.glued with
        | false =>
            have hmore := hglued hg
            omega
        | true =>
            have hpos : 0 < Text.ink text := Text.ink_pos (by simpa [hg] using hunglued)
            omega

theorem pushTag (h : Grown before line o) (tag : String) : Grown before line (o.pushTag tag) := by
  cases h with
  | finished hlines hink => exact .finished hlines hink
  | building hlines _ hink hglued => exact .building hlines rfl hink hglued

theorem lineBreak (h : Grown before line o) : Grown before line o.lineBreak := by
  unfold Output.lineBreak
  split
  · exact h
  next hends =>
  rw [Bool.or_eq_true, not_or, Bool.not_eq_true] at hends
  cases h with
  | @finished grown rest hlines hink =>
      have hlines' : o.complete.lines =
          before ++ grown :: (rest ++ [{ text := Text.collapse o.current, tags := o.tags }]) := by
        rw [complete, hlines, List.append_assoc, List.cons_append]
      exact .finished hlines' hink
  | building hlines _ _ hglued =>
      have hlines' : o.complete.lines =
          before ++ { text := Text.collapse o.current, tags := o.tags } :: [] := by
        rw [complete, hlines]
      refine .finished hlines' ?_
      rw [Text.ink_collapse]
      exact hglued hends.1

theorem glue (h : Grown before line o) : Grown before line o.glue := by
  unfold Output.glue
  cases h with
  | building hlines hclosed hink _ =>
      rw [hclosed]
      exact .building hlines rfl hink nofun
  | @finished grown rest hlines hink =>
      dsimp only
      split
      · rcases rest.eq_nil_or_concat with rfl | ⟨lines, last, rfl⟩
        · rw [reopen_of_lines hlines]
          exact .building rfl rfl (Nat.le_of_lt hink) nofun
        · rw [List.concat_eq_append, ← List.cons_append, ← List.append_assoc] at hlines
          rw [reopen_of_lines hlines]
          exact .finished rfl hink
      · exact .finished hlines hink

end Grown

/-- The second output is the first without its oldest lines, or the last of these has been opened
again in the first and has grown. -/
def Trails (before : List Line) (line : Line) (o p : Output) : Prop :=
  Ahead (before ++ [line]) o p ∨ Grown before line o

/-- Whatever is printed on two outputs of which one lacks the oldest lines of the other, only the
last of these lines can have changed, and it shows if it has. -/
theorem stable_trails (before : List Line) (line : Line) : Stable (Trails before line) where
  pushText text h := h.imp (·.pushText text) (·.pushText text)
  pushTag tag h := h.imp (·.pushTag tag) (·.pushTag tag)
  lineBreak h := h.imp (·.lineBreak) (·.lineBreak)
  glue {o p} h := by
    rcases h with h | h
    · by_cases hloose : p.reopenable = true ∧ p.lines = []
      · by_cases hopen : (p.reopenable && p.current.isEmpty) = true
        · obtain rfl := h
          refine .inr ?_
          unfold Output.glue
          rw [if_pos hopen]
          have hlines : before ++ [line] ++ p.lines = before ++ [line] := by
            rw [hloose.2, List.append_nil]
          rw [reopen_of_lines hlines]
          exact .building rfl rfl (Nat.le_refl _) nofun
        · obtain rfl := h
          refine .inl ?_
          unfold Output.glue
          rw [if_neg hopen, if_neg hopen]
          rfl
      · refine .inl (h.glue fun hreopenable hnil => ?_)
        exact absurd ⟨hreopenable, hnil⟩ hloose
    · exact .inr h.glue

/-- If every finished line is still there, and the last of those taken away cannot be opened, none
of them has been opened in between. -/
theorem Trails.leads {before : List Line} {line : Line} {o p : Output} (h : Trails before line o p)
    (hlines : before ++ [line] <+: o.lines)
    (hsettled : o.reopenable = true → (before ++ [line]).length < o.lines.length) :
    Leads (before ++ [line]) o p := by
  rcases h with h | h
  · refine ⟨h, fun hreopenable hnil => ?_⟩
    obtain rfl := h
    have hlonger := hsettled hreopenable
    rw [hnil, List.append_nil] at hlonger
    exact absurd hlonger (Nat.lt_irrefl _)
  · obtain ⟨later, hlater⟩ := hlines
    cases h with
    | building hbefore _ _ _ =>
        have hlength := congrArg List.length (hlater.trans hbefore)
        simp only [List.length_append, List.length_singleton] at hlength
        omega
    | finished hgrown hink =>
        have hsame := hlater.trans hgrown
        rw [List.append_assoc, List.append_cancel_left_eq, List.singleton_append] at hsame
        rw [(List.cons.inj hsame).1] at hink
        exact absurd hink (Nat.lt_irrefl _)

end Output

end Skein
