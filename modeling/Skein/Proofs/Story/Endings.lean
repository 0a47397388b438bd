import Skein.Proofs.Story.Pacing

set_option autoImplicit false

/-!
# Story: endings

The step limit holds for each line by itself.  A story that goes round in a loop without finishing
a line is stopped by it.  A story that finishes a line in every round is not: reading such a story
to its end goes on for ever, and takes more steps than any limit.  There is no other way for it not
to end.
-/

namespace Skein

open Outcome

namespace Flow

/-- A loop ends in one of three ways: the test is false, the body fails, or the bound is used up. -/
theorem repeatWhile_cases (test : State → Bool) (body : Flow Unit) (limit remaining : Nat)
    (s : State) :
    ∃ n t, n ≤ remaining ∧ Rounds test body n s t ∧
      (test t = false ∧ repeatWhile test limit body remaining s = .ok () t ∨
        (test t = true ∧ n < remaining ∧ ∃ fault u, body t = .error fault u ∧
          repeatWhile test limit body remaining s = .error fault u) ∨
        (test t = true ∧ n = remaining ∧
          repeatWhile test limit body remaining s = .error (.stepLimitExceeded limit) t)) := by
  induction remaining generalizing s with
  | zero =>
      refine ⟨0, s, Nat.le_refl 0, .none s, ?_⟩
      cases htest : test s with
      | false => exact .inl ⟨rfl, repeatWhile_of_false htest 0⟩
      | true => exact .inr (.inr ⟨rfl, rfl, repeatWhile_zero htest⟩)
  | succ remaining ih =>
      cases htest : test s with
      | false => exact ⟨0, s, Nat.zero_le _, .none s, .inl ⟨htest, repeatWhile_of_false htest _⟩⟩
      | true =>
          rw [repeatWhile_of_true htest]
          cases hbody : body s with
          | error fault u =>
              exact ⟨0, s, Nat.zero_le _, .none s,
                .inr (.inl ⟨htest, Nat.succ_pos _, fault, u, hbody, run_of_eq_error hbody⟩)⟩
          | ok _ t =>
              rw [run_of_eq_ok hbody]
              obtain ⟨n, u, hn, hrounds, hend⟩ := ih t
              refine ⟨n + 1, u, Nat.succ_le_succ hn, .round htest hbody hrounds, ?_⟩
              rwa [Nat.add_lt_add_iff_right, Nat.add_right_cancel_iff]

end Flow

namespace State

/-- If there is something to read after a line was taken, the line was a finished one. -/
theorem hasLine_of_canContinue {s : State} (hawaits : s.awaits = false)
    (hcan : s.takeLine.canContinue = true) : s.output.hasLine = true := by
  cases hlines : s.output.lines with
  | nil =>
      have hsame : s.takeLine.output = s.output := congrArg Prod.snd (Output.popLine_nil hlines)
      rw [canContinue, hsame] at hcan
      have hless := length_takeLine hcan hawaits
      rw [hsame] at hless
      exact absurd hless (Nat.lt_irrefl _)
  | cons line rest =>
      rw [Output.hasLine, hlines]
      rfl

end State

namespace Story

variable {story : Story} {s t : State}

/-! ## Reading line after line -/

section Reading

variable {readLine : Flow String}

theorem readLinesBy_of_done (h : s.canContinue = false) (read : List String) (bound : Nat) :
    readLinesBy readLine read bound s = .ok (some read.reverse) s := by
  cases bound with
  | zero =>
      show (if s.canContinue = true then _ else _ : Flow (Option (List String))) s = _
      rw [h]
      rfl
  | succ bound =>
      show (if s.canContinue = true then _ else _ : Flow (Option (List String))) s = _
      rw [h]
      rfl

theorem readLinesBy_zero (h : s.canContinue = true) (read : List String) :
    readLinesBy readLine read 0 s = .ok none s := by
  show (if s.canContinue = true then _ else _ : Flow (Option (List String))) s = _
  rw [h]
  rfl

theorem readLinesBy_succ (h : s.canContinue = true) (read : List String) (bound : Nat) :
    readLinesBy readLine read (bound + 1) s = (readLine >>= fun line =>
      readLinesBy readLine (if line.isEmpty then read else line :: read) bound) s := by
  show (if s.canContinue = true then _ else _ : Flow (Option (List String))) s = _
  rw [h]
  rfl

/-- If so many lines were enough, more of them change nothing. -/
theorem readLinesBy_of_le {read : List String} {bound more : Nat} (hle : bound ≤ more)
    (h : ∀ t, readLinesBy readLine read bound s ≠ .ok none t) :
    readLinesBy readLine read more s = readLinesBy readLine read bound s := by
  induction bound generalizing s read more with
  | zero =>
      cases hcan : s.canContinue with
      | false => rw [readLinesBy_of_done hcan, readLinesBy_of_done hcan]
      | true => exact absurd (readLinesBy_zero hcan read) (h s)
  | succ bound ih =>
      cases hcan : s.canContinue with
      | false => rw [readLinesBy_of_done hcan, readLinesBy_of_done hcan]
      | true =>
          obtain ⟨more, rfl⟩ := Nat.exists_eq_add_one_of_ne_zero (Nat.ne_zero_of_lt hle)
          rw [readLinesBy_succ hcan] at h ⊢
          rw [readLinesBy_succ hcan]
          cases hline : readLine s with
          | error fault t => rw [run_of_eq_error hline, run_of_eq_error hline]
          | ok line t =>
              rw [run_of_eq_ok hline] at h ⊢
              rw [run_of_eq_ok hline]
              exact ih (Nat.le_of_succ_le_succ hle) h

end Reading

/-- A reading of the story is left unfinished exactly if the reading of its lines is. -/
theorem continueMaximally_eq_none_iff {bound : Nat} :
    story.continueMaximally bound s = .ok none t ↔
      readLinesBy story.continueLine [] bound s = .ok none t := by
  cases hread : readLinesBy story.continueLine [] bound s with
  | error fault u =>
      rw [continueMaximally, linesBy, run_of_eq_error hread]
      exact ⟨nofun, nofun⟩
  | ok lines u =>
      rw [continueMaximally, linesBy, run_of_eq_ok hread]
      cases lines with
      | none =>
          constructor
          · intro h
            cases h
            rfl
          · intro h
            cases h
            rfl
      | some lines => exact ⟨nofun, nofun⟩

/-- What becomes of an attempt to read a line, by the steps that are taken for it. -/
theorem continueLine_cases (hcan : s.canContinue = true) :
    ∃ k u, k ≤ story.config.stepLimit ∧ story.Awaits k s u ∧
      (u.awaits = false ∧ story.continueLine s = .ok u.nextLine.text u.takeLine ∨
        (u.awaits = true ∧ k < story.config.stepLimit ∧
          ∃ fault t, story.step story.callFunction u = .error fault t ∧
            story.continueLine s = .error fault t) ∨
        (u.awaits = true ∧ k = story.config.stepLimit ∧
          story.continueLine s = .error (.stepLimitExceeded story.config.stepLimit) u)) := by
  have hloop : story.continueLine s =
      (Flow.repeatWhile State.awaits story.config.stepLimit (story.step story.callFunction)
        story.config.stepLimit >>= fun _ s => .ok s.nextLine.text s.takeLine) s := by
    show (if s.canContinue = true then _ else _ : Flow String) s = _
    rw [if_pos hcan]
    rfl
  rw [hloop]
  obtain ⟨k, u, hk, hawaits, hend⟩ := Flow.repeatWhile_cases State.awaits
    (story.step story.callFunction) story.config.stepLimit story.config.stepLimit s
  refine ⟨k, u, hk, hawaits, ?_⟩
  rcases hend with ⟨hsettled, hrun⟩ | ⟨htest, hlt, fault, t, hstep, hrun⟩ | ⟨htest, heq, hrun⟩
  · exact .inl ⟨hsettled, run_of_eq_ok hrun⟩
  · exact .inr (.inl ⟨htest, hlt, fault, t, hstep, run_of_eq_error hrun⟩)
  · exact .inr (.inr ⟨htest, heq, run_of_eq_error hrun⟩)

/-- Lines are read one after the other, with some number of steps in all.  Each is finished within
the step limit and then taken. -/
inductive Pages (story : Story) : List Line → Nat → State → State → Prop where
  | none (s : State) : Pages story [] 0 s s
  | line {lines : List Line} {k m : Nat} {s t u : State} (hcan : s.canContinue = true)
      (hlimit : k ≤ story.config.stepLimit) (hawaits : story.Awaits k s u)
      (hsettled : u.awaits = false) (hline : u.output.hasLine = true)
      (h : Pages story lines m u.takeLine t) : Pages story (u.nextLine :: lines) (k + m) s t

/-- However many lines are read, there is still something to read. -/
def Endless (story : Story) (s : State) : Prop :=
  ∀ n, ∃ lines m t, lines.length = n ∧ story.Pages lines m s t ∧ t.canContinue = true

namespace Pages

variable {lines : List Line} {m : Nat}

theorem steps_le (h : story.Pages lines m s t) : m ≤ lines.length * story.config.stepLimit := by
  induction h with
  | none s => exact Nat.zero_le _
  | line hcan hlimit hawaits hsettled hline h ih =>
      rw [List.length_cons, Nat.succ_mul, Nat.add_comm]
      exact Nat.add_le_add ih hlimit

theorem trans {more : List Line} {n : Nat} {u : State} (h : story.Pages lines m s t)
    (hmore : story.Pages more n t u) : story.Pages (lines ++ more) (m + n) s u := by
  induction h with
  | none s => rwa [Nat.zero_add]
  | line hcan hlimit hawaits hsettled hline h ih =>
      rw [Nat.add_assoc]
      exact .line hcan hlimit hawaits hsettled hline (ih hmore)

/-- Lines that are read without a step were finished before. -/
theorem length_le (h : story.Pages lines m s t) (hm : m = 0) :
    lines.length ≤ s.output.lines.length := by
  induction h with
  | none s => exact Nat.zero_le _
  | @line lines k m s t u hcan hlimit hawaits hsettled hline h ih =>
      obtain ⟨rfl, rfl⟩ := Nat.add_eq_zero_iff.mp hm
      cases hawaits
      exact Nat.lt_of_le_of_lt (ih rfl) (State.length_takeLine hcan hsettled)

/-- After some pages, reading goes on from where they end. -/
theorem exists_readLines (h : story.Pages lines m s t) (read : List String) (bound : Nat) :
    ∃ read', readLinesBy story.continueLine read (lines.length + bound) s =
      readLinesBy story.continueLine read' bound t := by
  induction h generalizing read with
  | none s => exact ⟨read, by rw [List.length_nil, Nat.zero_add]⟩
  | @line lines k m s t u hcan hlimit hawaits hsettled hline h ih =>
      have hrun : story.continueLine s = .ok u.nextLine.text u.takeLine :=
        continueLine_eq_ok_iff.mpr ⟨hcan, k, u, hlimit, hawaits, hsettled, rfl, rfl⟩
      rw [List.length_cons, Nat.succ_add, readLinesBy_succ hcan, run_of_eq_ok hrun]
      exact ih _

end Pages

/-- A reading that is left unfinished has read a line each time. -/
theorem exists_pages {read : List String} {bound : Nat}
    (h : readLinesBy story.continueLine read bound s = .ok none t) :
    t.canContinue = true ∧ ∃ lines m, lines.length = bound ∧ story.Pages lines m s t := by
  induction bound generalizing s read with
  | zero =>
      cases hcan : s.canContinue with
      | false =>
          rw [readLinesBy_of_done hcan] at h
          cases h
      | true =>
          rw [readLinesBy_zero hcan] at h
          cases h
          exact ⟨hcan, [], 0, rfl, .none _⟩
  | succ bound ih =>
      cases hcan : s.canContinue with
      | false =>
          rw [readLinesBy_of_done hcan] at h
          cases h
      | true =>
          rw [readLinesBy_succ hcan] at h
          obtain ⟨text, t', hline, h⟩ := of_run_eq_ok h
          obtain ⟨_, k, u, hk, hawaits, hsettled, -, rfl⟩ := continueLine_eq_ok_iff.mp hline
          obtain ⟨htcan, lines, m, hlength, hpages⟩ := ih h
          have hgoes : u.takeLine.canContinue = true := by
            cases hpages with
            | none => exact htcan
            | line hcan => exact hcan
          exact ⟨htcan, u.nextLine :: lines, k + m, congrArg Nat.succ hlength,
            .line hcan hk hawaits hsettled (State.hasLine_of_canContinue hsettled hgoes) hpages⟩

/-- Reading is endless exactly if no number of lines is enough. -/
theorem endless_iff :
    story.Endless s ↔ ∀ bound, ∃ t, story.continueMaximally bound s = .ok none t := by
  constructor
  · intro h bound
    obtain ⟨lines, m, t, rfl, hpages, hcan⟩ := h bound
    obtain ⟨read, hread⟩ := hpages.exists_readLines [] 0
    exact ⟨t, continueMaximally_eq_none_iff.mpr (hread.trans (readLinesBy_zero hcan read))⟩
  · intro h bound
    obtain ⟨t, hrun⟩ := h bound
    obtain ⟨hcan, lines, m, hlength, hpages⟩ := exists_pages (continueMaximally_eq_none_iff.mp hrun)
    exact ⟨lines, m, t, hlength, hpages, hcan⟩

/-- What is endless is endless after any pages of it. -/
theorem Endless.after {lines : List Line} {m : Nat} (h : story.Endless s)
    (hpages : story.Pages lines m s t) : story.Endless t := by
  intro n
  obtain ⟨u, hrun⟩ := endless_iff.mp h (lines.length + n)
  obtain ⟨read, hread⟩ := hpages.exists_readLines [] n
  obtain ⟨hcan, more, k, hlength, hmore⟩ :=
    exists_pages (hread.symm.trans (continueMaximally_eq_none_iff.mp hrun))
  exact ⟨more, k, u, hlength, hmore, hcan⟩

/-- Endless reading takes steps without end: lines that take none are used up. -/
theorem Endless.exists_steps (h : story.Endless s) (n : Nat) :
    ∃ lines m t, n ≤ m ∧ story.Pages lines m s t := by
  induction n with
  | zero => exact ⟨[], 0, s, Nat.le_refl 0, .none s⟩
  | succ n ih =>
      obtain ⟨lines, m, t, hle, hpages⟩ := ih
      obtain ⟨more, k, u, hlength, hmore, _⟩ := h.after hpages (t.output.lines.length + 1)
      have hk : k ≠ 0 := fun hzero => by
        have := hmore.length_le hzero
        omega
      exact ⟨lines ++ more, m + k, u, by omega, hpages.trans hmore⟩

/-- Reading a line takes at most as many steps as the limit says, those of functions that are called
aside: it gives the line, fails with a step, or fails because the line is still waited for when the
limit is reached.  Reading on to the end gives an answer or an error, the same for every number of
lines that is enough, unless lines are finished for ever.  Then it takes any number of steps, each
line being within the limit. -/
theorem endings_of_reading (story : Story) (s : State) :
    (s.canContinue = true → ∃ k u, k ≤ story.config.stepLimit ∧ story.Awaits k s u ∧
      (u.awaits = false ∧ story.continueLine s = .ok u.nextLine.text u.takeLine ∨
        (u.awaits = true ∧ k < story.config.stepLimit ∧
          ∃ fault t, story.step story.callFunction u = .error fault t ∧
            story.continueLine s = .error fault t) ∨
        (u.awaits = true ∧ k = story.config.stepLimit ∧
          story.continueLine s = .error (.stepLimitExceeded story.config.stepLimit) u))) ∧
    (∀ bound, (∀ t, story.continueMaximally bound s ≠ .ok none t) →
      ∀ more, bound ≤ more → story.continueMaximally more s = story.continueMaximally bound s) ∧
    ((∃ bound, ∀ t, story.continueMaximally bound s ≠ .ok none t) ↔ ¬story.Endless s) ∧
    (∀ lines m t, story.Pages lines m s t → m ≤ lines.length * story.config.stepLimit) ∧
    (story.Endless s → ∀ n, ∃ lines m t, n ≤ m ∧ story.Pages lines m s t) := by
  refine ⟨continueLine_cases, fun bound h more hle => ?_, ?_, fun _ _ _ h => h.steps_le,
    Endless.exists_steps⟩
  · have hread (t : State) : readLinesBy story.continueLine [] bound s ≠ .ok none t :=
      fun hnone => h t (continueMaximally_eq_none_iff.mpr hnone)
    exact bind_congr_left (readLinesBy_of_le hle hread) _
  · rw [endless_iff]
    simp only [ne_eq, Classical.not_forall, not_exists]

/-! ## A story without an end -/

/-- A knot that prints a line and leads back to its start. -/
def refrainKnot : Knot where
  name := "start"
  id := ⟨1⟩
  parameters := []
  objects := [.text "Again.", .lineBreak, .divert { kind := .goto, target := some "start" }]
  stitches := []
  gathers := []
  isFunction := false

/-- A story of that knot alone. -/
def refrain : Story where
  script := { knots := [refrainKnot], sound := rfl }

/-- A state of that story, by the place in its knot and the output. -/
def refrainAt (s : State) (index : Nat) (output : Output) : State :=
  { s with
    frames := .ofList [{ kind := .root, knot := ⟨0⟩
                         cursors := [{ content := refrainKnot.objects, index := index, stop := 3
                                       topLevel := true, counted := none }] }]
    output := output
    status := .running }

theorem resolve_refrain :
    refrain.script.resolve "start" none = .ok (.knot ⟨0⟩) ∧
      refrain.script.resolve "start" (some ⟨0⟩) = .ok (.knot ⟨0⟩) := by
  have hparts : Script.segments "start" = ["start"] := by decide +kernel
  unfold Script.resolve
  rw [hparts]
  exact ⟨rfl, rfl⟩

theorem find_refrain (s : State) (index : Nat) (output : Output) :
    refrain.find "start" (refrainAt s index output) = .ok (.knot ⟨0⟩,
      { knot := ⟨0⟩, start := 0, stop := 3, visits := [⟨1⟩], gatherStart := none })
      (refrainAt s index output) := by
  have hget : (get : Flow State) (refrainAt s index output) =
      .ok (refrainAt s index output) (refrainAt s index output) := rfl
  have hcurrent : (refrainAt s index output).currentKnot? = some ⟨0⟩ := rfl
  refine (run_of_eq_ok hget).trans ?_
  rw [hcurrent, resolve_refrain.2]
  rfl

theorem start_refrain : ∃ s, refrain.start = .ok (refrainAt s 0 {}) := by
  have hlists : (refrain.script.nodes.filterMap listOf?).isEmpty = true := by decide +kernel
  have hglobals : (refrain.script.nodes.filterMap globalOf?).isEmpty = true := by decide +kernel
  have hdeclare (s : State) : refrain.declareAll s = .ok () s := by
    rw [declareAll, List.isEmpty_iff.mp hlists, List.isEmpty_iff.mp hglobals]
    rfl
  have hload (s : State) : refrain.load.run s = refrain.startAt "start" s :=
    (run_of_eq_ok (hdeclare s)).trans rfl
  unfold start
  rw [hload, startAt, resolve_refrain.1]
  exact ⟨_, rfl⟩

theorem step_refrain_text (s : State) (reopenable : Bool) (run : Call) :
    refrain.step run (refrainAt s 0 { reopenable := reopenable }) =
      .ok () (refrainAt s 1 { current := "Again." }) := by
  cases reopenable <;> rfl

theorem step_refrain_break (s : State) (run : Call) :
    refrain.step run (refrainAt s 1 { current := "Again." }) =
      .ok () (refrainAt s 2 { lines := [{ text := "Again." }], reopenable := true }) := by
  have hbreak : ({ current := "Again." } : Output).lineBreak =
      { lines := [{ text := "Again." }], reopenable := true } := by decide +kernel
  rw [← hbreak]
  rfl

theorem step_refrain_divert (s : State) (output : Output) (run : Call) :
    refrain.step run (refrainAt s 2 output) = .ok () (refrainAt (s.visit ⟨1⟩) 0 output) := by
  have hget : (get : Flow State) (refrainAt s 3 output) =
      .ok (refrainAt s 3 output) (refrainAt s 3 output) := rfl
  show refrain.goto run "start" [] (refrainAt s 3 output) = _
  unfold goto
  rw [if_neg (by decide), if_neg (by decide)]
  exact (run_of_eq_ok hget).trans ((run_of_eq_ok (find_refrain s 3 output)).trans rfl)

/-- Every round finishes a line in three steps, and leads to the start of the next round. -/
theorem pages_refrain (s : State) (reopenable : Bool) :
    ∃ t, refrain.Pages [{ text := "Again." }] 3 (refrainAt s 0 { reopenable := reopenable })
      (refrainAt t 0 { reopenable := true }) := by
  have hawaits : refrain.Awaits 3 (refrainAt s 0 { reopenable := reopenable })
      (refrainAt (s.visit ⟨1⟩) 0 { lines := [{ text := "Again." }], reopenable := true }) :=
    .round rfl (step_refrain_text _ _ _) (.round rfl (step_refrain_break _ _)
      (.round rfl (step_refrain_divert _ _ _) (.none _)))
  exact ⟨{ s.visit ⟨1⟩ with lineTags := [] }, .line rfl (by decide) hawaits rfl rfl (.none _)⟩

theorem endless_refrain (s : State) (reopenable : Bool) :
    refrain.Endless (refrainAt s 0 { reopenable := reopenable }) := by
  intro n
  induction n generalizing s reopenable with
  | zero => exact ⟨[], 0, _, rfl, .none _, rfl⟩
  | succ n ih =>
      obtain ⟨t, hround⟩ := pages_refrain s reopenable
      obtain ⟨lines, m, u, hlength, hpages, hcan⟩ := ih t true
      exact ⟨_ :: lines, 3 + m, u, congrArg Nat.succ hlength, hround.trans hpages, hcan⟩

/-- The step limit does not keep the host from reading this story for ever. -/
theorem refrain_never_ends :
    ∃ s, refrain.start = .ok s ∧
      ∀ bound, ∃ t, refrain.continueMaximally bound s = .ok none t ∧ t.canContinue = true := by
  obtain ⟨s, hstart⟩ := start_refrain
  refine ⟨_, hstart, fun bound => ?_⟩
  obtain ⟨t, hrun⟩ := endless_iff.mp (endless_refrain s false) bound
  exact ⟨t, hrun, (exists_pages (continueMaximally_eq_none_iff.mp hrun)).1⟩

/-- One story is read to its end however many lines are allowed, once there are enough; the other
takes any number of steps. -/
theorem endings_of_refrain :
    (∃ s, joined.start = .ok s ∧ ∀ more, 2 ≤ more →
      (joined.continueMaximally more).answer? s = some (some "One more\nTwo")) ∧
    ∃ s, refrain.start = .ok s ∧ refrain.Endless s ∧
      ∀ n, ∃ lines m t, n ≤ m ∧ refrain.Pages lines m s t := by
  constructor
  · have hrun : (joined.start.toOption.map (joined.continueMaximally 2).answer?) =
        some (some (some "One more\nTwo")) := by decide +kernel
    obtain ⟨s, hstart, hanswer⟩ := exists_start hrun
    have henough (t : State) : joined.continueMaximally 2 s ≠ .ok none t := by
      intro hnone
      rw [Flow.of_answer?_eq_some hanswer] at hnone
      cases hnone
    refine ⟨s, hstart, fun more hle => ?_⟩
    rw [← hanswer, Flow.answer?, (endings_of_reading joined s).2.1 2 henough more hle]
    rfl
  · obtain ⟨s, hstart⟩ := start_refrain
    exact ⟨_, hstart, endless_refrain s false,
      (endings_of_reading refrain _).2.2.2.2 (endless_refrain s false)⟩

end Story

end Skein
