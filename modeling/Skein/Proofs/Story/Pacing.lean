import Skein.Proofs.Story.Lines

set_option autoImplicit false

/-!
# Story: pacing

A story can be read line by line, each line as soon as it is settled, or it can be run until its
flow comes to rest and its lines be taken then.  Both give the same lines, if every line that counts
as settled really is: the next step must not touch the finished lines, and must leave none of them
open to glue.  A look ahead at the next node does not tell that.  The node starts text, but the text
may be empty, or a function that is called in it may print glue.
-/

namespace Skein

open Outcome

namespace Flow

/-! ## Loops by the number of rounds -/

/-- The body of a loop runs some number of times, the test being true before each. -/
inductive Rounds (test : State → Bool) (body : Flow Unit) : Nat → State → State → Prop where
  | none (s : State) : Rounds test body 0 s s
  | round {n : Nat} {s t u : State} (htest : test s = true) (hbody : body s = .ok () t)
      (h : Rounds test body n t u) : Rounds test body (n + 1) s u

variable {test : State → Bool} {body : Flow Unit}

/-- A loop succeeds by running its body until the test is false, within the bound. -/
theorem repeatWhile_eq_ok_iff {limit remaining : Nat} {s t : State} :
    repeatWhile test limit body remaining s = .ok () t ↔
      test t = false ∧ ∃ n, n ≤ remaining ∧ Rounds test body n s t := by
  constructor
  · intro h
    induction remaining generalizing s with
    | zero =>
        cases htest : test s with
        | false =>
            rw [repeatWhile_of_false htest] at h
            cases h
            exact ⟨htest, 0, Nat.le_refl 0, .none _⟩
        | true =>
            rw [repeatWhile_zero htest] at h
            cases h
    | succ remaining ih =>
        cases htest : test s with
        | false =>
            rw [repeatWhile_of_false htest] at h
            cases h
            exact ⟨htest, 0, Nat.zero_le _, .none _⟩
        | true =>
            rw [repeatWhile_of_true htest] at h
            obtain ⟨_, u, hbody, h⟩ := of_run_eq_ok h
            obtain ⟨hdone, n, hn, hrounds⟩ := ih h
            exact ⟨hdone, n + 1, Nat.succ_le_succ hn, .round htest hbody hrounds⟩
  · rintro ⟨hdone, n, hn, hrounds⟩
    induction hrounds generalizing remaining with
    | none s => exact repeatWhile_of_false hdone remaining
    | round htest hbody _ ih =>
        cases remaining with
        | zero => cases hn
        | succ remaining =>
            rw [repeatWhile_of_true htest]
            exact (run_of_eq_ok hbody).trans (ih hdone (Nat.le_of_succ_le_succ hn))

theorem Rounds.trans {m n : Nat} {s t u : State} (ht : Rounds test body m s t)
    (hu : Rounds test body n t u) : Rounds test body (m + n) s u := by
  induction ht with
  | none s => rwa [Nat.zero_add]
  | @round m s s' t htest hbody _ ih =>
      rw [Nat.add_right_comm]
      exact .round htest hbody (ih hu)

/-- There is one way to run a loop to its end. -/
theorem Rounds.eq {m n : Nat} {s t u : State} (ht : Rounds test body m s t)
    (hu : Rounds test body n s u) (htest : test t = false) (htest' : test u = false) : t = u := by
  induction ht generalizing n with
  | none s =>
      cases hu with
      | none => rfl
      | round hgoes => cases hgoes.symm.trans htest
  | round hgoes hbody _ ih =>
      cases hu with
      | none => cases hgoes.symm.trans htest'
      | round _ hbody' hu =>
          cases hbody.symm.trans hbody'
          exact ih hu htest

end Flow

/-! ## Reading and running -/

namespace State

/-- Whether the flow has not come to rest. -/
def runs (s : State) : Bool := s.status = .running

/-- Whether the next line is waited for. -/
def awaits (s : State) : Bool := s.runs && !s.lineSettled

/-- The line that is read next. -/
def nextLine (s : State) : Line := s.output.popLine.1.getD {}

/-- The state with the next line taken away. -/
def takeLine (s : State) : State := s.printing s.output.popLine.2 s.nextLine.tags

theorem awaits_eq_false_iff {s : State} :
    s.awaits = false ↔ (s.runs = true → s.lineSettled = true) := by
  unfold awaits
  cases s.runs <;> cases s.lineSettled <;> simp

/-- If there is something to read that is not waited for, there is a line, and it is taken. -/
theorem length_takeLine {s : State} (hcan : s.canContinue = true) (hawaits : s.awaits = false) :
    s.takeLine.output.lines.length < s.output.lines.length := by
  have hline : s.output.hasLine = true := by
    rcases Bool.or_eq_true_iff.mp hcan with hline | hruns
    · exact hline
    · exact (Bool.and_eq_true_iff.mp (awaits_eq_false_iff.mp hawaits hruns)).1
  show s.output.popLine.2.lines.length < s.output.lines.length
  cases hlines : s.output.lines with
  | nil =>
      rw [Output.hasLine, hlines] at hline
      cases hline
  | cons line rest =>
      rw [Output.popLine_cons hlines]
      exact Nat.lt_succ_self _

end State

/-- Whether a node prints text that is not empty. -/
def Node.shows : Node → Bool
  | .text s => !s.isEmpty
  | _ => false

theorem Node.of_shows {node : Node} (h : node.shows = true) :
    ∃ s, node = .text s ∧ s.isEmpty = false := by
  cases node with
  | text s => exact ⟨s, rfl, by simpa [shows] using h⟩
  | _ => cases h

namespace Story

/-- Steps are taken, so many at most, until the flow comes to rest. -/
def runOut (story : Story) (limit : Nat) : Flow Unit :=
  Flow.repeatWhile State.runs limit (story.step story.callFunction) limit

/-- Some number of steps is taken while the flow runs. -/
def Steps (story : Story) : Nat → State → State → Prop :=
  Flow.Rounds State.runs (story.step story.callFunction)

/-- Some number of steps is taken while the next line is waited for. -/
def Awaits (story : Story) : Nat → State → State → Prop :=
  Flow.Rounds State.awaits (story.step story.callFunction)

/-- Lines are read as long as there are any. -/
inductive Reads (story : Story) : State → List Line → State → Prop where
  | done {s : State} (h : s.canContinue = false) : Reads story s [] s
  | line {s t u : State} {text : String} {lines : List Line}
      (hline : story.continueLine s = .ok text t) (h : Reads story t lines u) :
      Reads story s ({ text := text, tags := t.lineTags } :: lines) u

variable {story : Story}

theorem runOut_eq_ok_iff {limit : Nat} {s t : State} :
    story.runOut limit s = .ok () t ↔ t.runs = false ∧ ∃ n, n ≤ limit ∧ story.Steps n s t :=
  Flow.repeatWhile_eq_ok_iff

/-- A line is read by waiting for it and taking it. -/
theorem continueLine_eq_ok_iff {s t : State} {text : String} :
    story.continueLine s = .ok text t ↔ s.canContinue = true ∧ ∃ n u,
      n ≤ story.config.stepLimit ∧ story.Awaits n s u ∧ u.awaits = false ∧
        text = u.nextLine.text ∧ t = u.takeLine := by
  have hloop (u : State) :
      Flow.repeatWhile (fun s => s.status = .running && !s.lineSettled) story.config.stepLimit
        (story.step story.callFunction) story.config.stepLimit s = .ok () u ↔
      u.awaits = false ∧ ∃ n, n ≤ story.config.stepLimit ∧ story.Awaits n s u :=
    Flow.repeatWhile_eq_ok_iff
  constructor
  · intro h
    obtain ⟨s', _, hget, h⟩ := of_run_eq_ok h
    cases hget
    split at h
    · next hcan =>
        obtain ⟨_, u, hawait, h⟩ := of_run_eq_ok h
        obtain ⟨hsettled, n, hn, hsteps⟩ := (hloop u).mp hawait
        cases h
        exact ⟨hcan, n, u, hn, hsteps, hsettled, rfl, rfl⟩
    · cases h
  · rintro ⟨hcan, n, u, hn, hsteps, hsettled, rfl, rfl⟩
    have hawait := (hloop u).mpr ⟨hsettled, n, hn, hsteps⟩
    show (if s.canContinue = true then _ else _ : Flow String) s = _
    rw [if_pos hcan]
    exact (run_of_eq_ok hawait).trans rfl

/-! ## Lines that are settled -/

/-- The finished lines are settled: the next step leaves them alone, and after it none of them can
be opened again. -/
def Settles (story : Story) (s : State) : Prop :=
  Ensures (fun _ t => s.output.lines <+: t.output.lines ∧
      (t.output.reopenable = true → s.output.lines.length < t.output.lines.length))
    (fun _ _ => True) (story.step story.callFunction s)

/-- Wherever the flow gets by itself, the finished lines are settled if they count as settled. -/
def Settling (story : Story) (s : State) : Prop :=
  ∀ n t, story.Steps n s t → t.runs = true → t.lineSettled = true → story.Settles t

theorem Settling.settles {s : State} (h : story.Settling s) (hruns : s.runs = true)
    (hline : s.lineSettled = true) : story.Settles s := h 0 s (.none s) hruns hline

theorem Settling.step {s t : State} (h : story.Settling s) (hruns : s.runs = true)
    (hstep : story.step story.callFunction s = .ok () t) : story.Settling t :=
  fun n u hsteps => h (n + 1) u (.round hruns hstep hsteps)

/-- Text that is not empty settles the lines before it. -/
theorem settles_of_text {s : State} {text : String} (hnode : s.node? = some (.text text))
    (htext : text.isEmpty = false) : story.Settles s := by
  obtain ⟨⟨cursor, frame⟩, hnext, hnode⟩ := Option.bind_eq_some_iff.mp hnode
  obtain ⟨top, htop, hnext⟩ := Option.bind_eq_some_iff.mp hnext
  unfold Settles
  rw [step_of_node htop hnext hnode]
  show s.output.lines <+: ((story.past s cursor frame).output.pushText text).lines ∧
    (((story.past s cursor frame).output.pushText text).reopenable = true → _)
  rw [output_past, Output.pushText, htext]
  exact ⟨List.prefix_refl _, nofun⟩

/-- Whether the flow comes to rest within some steps, and text that is not empty comes next wherever
a line counts as settled. -/
def settlesWithin (story : Story) : Nat → State → Bool
  | 0, s => !s.runs
  | n + 1, s => !s.runs || (!s.lineSettled || s.node?.any Node.shows) &&
      story.settlesWithin n ((story.step story.callFunction).after s)

theorem settling_of_settlesWithin {n : Nat} {s : State} (h : story.settlesWithin n s = true) :
    story.Settling s := by
  intro m t hsteps hruns hline
  unfold Steps at hsteps
  induction hsteps generalizing n with
  | none s =>
      cases n with
      | zero => simp [settlesWithin, hruns] at h
      | succ n =>
          simp only [settlesWithin, hruns, hline, Bool.not_true, Bool.false_or,
            Bool.and_eq_true] at h
          obtain ⟨node, hnode, hshows⟩ := (Option.any_eq_true _ _).mp h.1
          obtain ⟨text, rfl, htext⟩ := Node.of_shows hshows
          exact settles_of_text hnode htext
  | round htest hbody _ ih =>
      cases n with
      | zero => simp [settlesWithin, htest] at h
      | succ n =>
          simp only [settlesWithin, htest, Bool.not_true, Bool.false_or, Bool.and_eq_true,
            Flow.after_of_eq_ok hbody] at h
          exact ih h.2 hruns hline

/-! ## Reading follows running -/

/-- Lines have been taken away in the second of two states that are the same otherwise.  None of
them can be opened again; or one can, but then the flow is about to settle them. -/
structure Follows (story : Story) (taken : List Line) (s t : State) : Prop where
  aligned : s.Aligned
  settling : story.Settling s
  abreast : s.Abreast (Output.Ahead taken) t
  firm : s.runs = true → s.Abreast (Output.Leads taken) t ∨ s.lineSettled = true

namespace Follows

variable {taken : List Line} {s t : State}

theorem of_leads (hs : s.Aligned) (hsettling : story.Settling s)
    (hst : s.Abreast (Output.Leads taken) t) : story.Follows taken s t := by
  refine ⟨hs, hsettling, ?_, fun _ => .inl hst⟩
  obtain ⟨output, tags, hleads, rfl⟩ := hst
  exact ⟨output, tags, hleads.ahead, rfl⟩

theorem runs_eq (h : story.Follows taken s t) : t.runs = s.runs := by
  obtain ⟨output, tags, _, rfl⟩ := h.abreast
  rfl

/-- A step does the same to both states, and after it no line can be opened again that was taken
away. -/
theorem blind_step (h : story.Follows taken s t) (hruns : s.runs = true) :
    (story.step story.callFunction).Blind (Output.Leads taken) s t := by
  have hfirm (hleads : s.Abreast (Output.Leads taken) t) :
      (story.step story.callFunction).Blind (Output.Leads taken) s t :=
    story.blind_storyStep (Output.stable_leads taken) h.aligned hleads
      fun _ _ => Output.closing_leads taken
  rcases h.firm hruns with hleads | hline
  · exact hfirm hleads
  obtain ⟨output, tags, hahead, rfl⟩ := h.abreast
  rcases taken.eq_nil_or_concat with rfl | ⟨before, line, rfl⟩
  · exact hfirm ⟨output, tags, ⟨hahead, fun _ _ => rfl⟩, rfl⟩
  rw [List.concat_eq_append] at hahead ⊢
  -- The last line taken away may be open still, so all that is known at first is that it shows if
  -- it has been opened.
  have hblind := story.blind_storyStep (Output.stable_trails before line) h.aligned
    ⟨output, tags, .inl hahead, rfl⟩ (by
      intro hnone
      rw [(Bool.and_eq_true_iff.mp hline).2] at hnone
      cases hnone)
  have htaken : before ++ [line] <+: s.output.lines := by
    rw [hahead]
    exact List.prefix_append _ _
  refine (Alike.and_ensures hblind (h.settling.settles hruns hline)).mono ?_ fun _ _ _ h => h
  rintro _ u v ⟨⟨hlines, hlonger⟩, output', tags', hout, rfl⟩
  refine ⟨output', tags', hout.leads (htaken.trans hlines) fun hopen => ?_, rfl⟩
  exact Nat.lt_of_le_of_lt htaken.length_le (hlonger hopen)

theorem after (h : story.Follows taken s t) (hruns : s.runs = true) {u v : State}
    (hstep : story.step story.callFunction s = .ok () u) (huv : u.Abreast (Output.Leads taken) v) :
    story.Follows taken u v :=
  .of_leads ((stepped_of_step h.aligned hstep).moved h.aligned |>.aligned h.aligned)
    (h.settling.step hruns hstep) huv

/-- Steps towards the next line are steps of the run. -/
theorem awaits {n : Nat} {v : State} (h : story.Follows taken s t) (hawaits : story.Awaits n t v) :
    ∃ u, story.Steps n s u ∧ story.Follows taken u v := by
  unfold Awaits at hawaits
  induction hawaits generalizing s with
  | none t => exact ⟨s, .none s, h⟩
  | round htest hbody _ ih =>
      have hruns : s.runs = true := h.runs_eq ▸ (Bool.and_eq_true_iff.mp htest).1
      obtain ⟨s', hstep, habreast⟩ := (h.blind_step hruns).of_eq_ok hbody
      obtain ⟨u, hsteps, hu⟩ := ih (h.after hruns hstep habreast)
      exact ⟨u, .round hruns hstep hsteps, hu⟩

/-- A run to the end comes to where the next line is settled. -/
theorem steps {n : Nat} {w : State} (h : story.Follows taken s t) (hsteps : story.Steps n s w)
    (hrest : w.runs = false) :
    ∃ k m u v, n = k + m ∧ story.Awaits k t v ∧ v.awaits = false ∧ story.Follows taken u v ∧
      story.Steps m u w := by
  unfold Steps at hsteps
  induction hsteps generalizing t with
  | none s =>
      refine ⟨0, 0, s, t, rfl, .none t, ?_, h, .none s⟩
      rw [State.awaits, h.runs_eq, hrest]
      rfl
  | @round n s s' w hruns hbody hsteps ih =>
      cases hawaits : t.awaits with
      | false => exact ⟨0, n + 1, s, t, by omega, .none t, hawaits, h, .round hruns hbody hsteps⟩
      | true =>
          obtain ⟨t', hstep, habreast⟩ := (h.blind_step hruns).eq_ok hbody
          obtain ⟨k, m, u, v, hn, hk, hv, hu, hm⟩ := ih (h.after hruns hbody habreast) hrest
          exact ⟨k + 1, m, u, v, by omega, .round hawaits hstep hk, hv, hu, hm⟩

/-- Once the next line is not waited for any more it can be taken.  Where there is none, an empty
one is read. -/
theorem take (h : story.Follows taken s t) (hawaits : t.awaits = false) :
    ∃ more, story.Follows (taken ++ more) s t.takeLine ∧
      more.filter (· ≠ {}) = [t.nextLine].filter (· ≠ {}) := by
  obtain ⟨output, tags, hahead, rfl⟩ := h.abreast
  have hsettled : s.runs = true → output.hasLine = true ∧ s.startsText = true :=
    fun hruns => Bool.and_eq_true_iff.mp (State.awaits_eq_false_iff.mp hawaits hruns)
  unfold State.takeLine State.nextLine
  show ∃ more, story.Follows (taken ++ more) s (s.printing output.popLine.2 _) ∧
    more.filter (· ≠ {}) = [output.popLine.1.getD {}].filter (· ≠ {})
  cases hlines : output.lines with
  | nil =>
      rw [Output.popLine_nil hlines]
      refine ⟨[], ⟨h.aligned, h.settling, ⟨output, _, ?_, rfl⟩, fun hruns => ?_⟩, rfl⟩
      · rw [List.append_nil]
        exact hahead
      · have hhas := (hsettled hruns).1
        rw [Output.hasLine, hlines] at hhas
        cases hhas
  | cons line rest =>
      rw [Output.popLine_cons hlines]
      refine ⟨[line], ⟨h.aligned, h.settling, ⟨{ output with lines := rest }, _, ?_, rfl⟩,
        fun hruns => .inr ?_⟩, rfl⟩
      · show s.output = { output with lines := taken ++ [line] ++ rest }
        rw [hahead, hlines, List.append_assoc]
        rfl
      · rw [State.lineSettled, (hsettled hruns).2, Output.hasLine, hahead, hlines]
        simp

/-- Reading all lines follows running the story out. -/
theorem reads {lines : List Line} {v : State} (h : story.Follows taken s t)
    (hreads : story.Reads t lines v) :
    ∃ n u, story.Steps n s u ∧ u.runs = false ∧
      (taken ++ lines).filter (· ≠ {}) = u.output.lines.filter (· ≠ {}) ∧
      ∃ output tags, v = u.printing output tags := by
  induction hreads generalizing taken s with
  | done hdone =>
      obtain ⟨output, tags, hahead, rfl⟩ := h.abreast
      obtain ⟨hnone, hrest⟩ := Bool.or_eq_false_iff.mp hdone
      refine ⟨0, s, .none s, hrest, ?_, output, tags, rfl⟩
      have hlines : output.lines = [] := by
        simpa [Output.hasLine, State.printing] using hnone
      rw [hahead, hlines]
  | @line _ _ _ _ lines hline _ ih =>
      obtain ⟨_, k, t', _, hk, hawaits, rfl, rfl⟩ := continueLine_eq_ok_iff.mp hline
      obtain ⟨s', hsteps, h'⟩ := h.awaits hk
      obtain ⟨more, hmore, hnext⟩ := h'.take hawaits
      obtain ⟨n, u, hn, hrest, hlines, hv⟩ := ih hmore
      refine ⟨k + n, u, hsteps.trans hn, hrest, ?_, hv⟩
      show (taken ++ ([t'.nextLine] ++ lines)).filter (· ≠ {}) = _
      simp only [← hlines, List.filter_append, hnext, List.append_assoc]

/-- If the story runs out, all its lines can be read. -/
theorem exists_reads {taken : List Line} {s t w : State} {n : Nat} (h : story.Follows taken s t)
    (hsteps : story.Steps n s w) (hrest : w.runs = false) (hn : n ≤ story.config.stepLimit) :
    ∃ lines v, story.Reads t lines v := by
  cases hcan : t.canContinue with
  | false => exact ⟨[], t, .done hcan⟩
  | true =>
      obtain ⟨k, m, u, v, hkm, hk, hawaits, h', hm⟩ := h.steps hsteps hrest
      obtain ⟨more, hmore, _⟩ := h'.take hawaits
      have hline : story.continueLine t = .ok v.nextLine.text v.takeLine :=
        continueLine_eq_ok_iff.mpr ⟨hcan, k, v, by omega, hk, hawaits, rfl, rfl⟩
      -- Either steps are taken before the line is, or the line was there already.
      have hless : m < n ∨ m = n ∧ v.takeLine.output.lines.length < t.output.lines.length := by
        cases hk with
        | none => exact .inr ⟨by omega, State.length_takeLine hcan hawaits⟩
        | round => exact .inl (by omega)
      obtain ⟨lines, w', hreads⟩ := exists_reads hmore hm hrest (by omega)
      exact ⟨_, w', .line hline hreads⟩
termination_by (n, t.output.lines.length)
decreasing_by
  rcases hless with hm | ⟨rfl, hlines⟩
  · exact .left _ _ hm
  · exact .right _ hlines

end Follows

/-! ## Pacing -/

/-- It does not matter how a story is read, as long as lines are settled that count as settled.  A
story that can be read line by line runs out, and one that runs out can be read line by line.  The
lines are the same but for empty ones without tags, and the states in the end differ in their
outputs only. -/
theorem pacing_of_reachable {s : State} (h : story.Reachable s) (hsettling : story.Settling s) :
    (∀ lines t, story.Reads s lines t → ∃ limit u, story.runOut limit s = .ok () u) ∧
    (∀ u, story.runOut story.config.stepLimit s = .ok () u → ∃ lines t, story.Reads s lines t) ∧
    ∀ lines t limit u, story.Reads s lines t → story.runOut limit s = .ok () u →
      lines.filter (· ≠ {}) = u.output.lines.filter (· ≠ {}) ∧
        ∃ output tags, t = u.printing output tags := by
  have hfollows : story.Follows [] s s :=
    .of_leads h.aligned hsettling ⟨s.output, s.lineTags, Output.leads_self _, rfl⟩
  refine ⟨fun lines t hreads => ?_, fun u hrun => ?_, fun lines t limit u hreads hrun => ?_⟩
  · obtain ⟨n, u, hsteps, hrest, _⟩ := hfollows.reads hreads
    exact ⟨n, u, runOut_eq_ok_iff.mpr ⟨hrest, n, Nat.le_refl n, hsteps⟩⟩
  · obtain ⟨hrest, n, hn, hsteps⟩ := runOut_eq_ok_iff.mp hrun
    exact hfollows.exists_reads hsteps hrest hn
  · obtain ⟨hrest, n, _, hsteps⟩ := runOut_eq_ok_iff.mp hrun
    obtain ⟨m, u', hsteps', hrest', hsame⟩ := hfollows.reads hreads
    rw [hsteps.eq hsteps' hrest hrest']
    exact hsame

/-- A story of two lines, the first of which is opened again before it is settled. -/
def joined : Story where
  script :=
    { knots :=
        [{ name := "start", id := ⟨1⟩, parameters := []
           objects := [.text "One", .lineBreak, .glue, .text " more", .lineBreak, .text "Two",
             .tag "loud", .lineBreak]
           stitches := [], gathers := [], isFunction := false }]
      sound := rfl }

theorem pacing_of_joined :
    ∃ s lines t, joined.start = .ok s ∧ joined.Reads s lines t ∧
      lines.filter (· ≠ {}) = [⟨"One more", []⟩, ⟨"Two", ["loud"]⟩] := by
  have hrun : (joined.start.toOption.map fun s =>
      let run := joined.runOut joined.config.stepLimit
      (joined.settlesWithin 10 s, run.answer? s,
        (run.after s).output.lines.filter (· ≠ {}))) =
      some (true, some (), [⟨"One more", []⟩, ⟨"Two", ["loud"]⟩]) := by decide +kernel
  obtain ⟨s, hstart, hrun⟩ := exists_start hrun
  simp only [Prod.mk.injEq] at hrun
  obtain ⟨hsettles, hanswer, hlines⟩ := hrun
  obtain ⟨_, hreads, hsame⟩ :=
    pacing_of_reachable (.start hstart) (settling_of_settlesWithin hsettles)
  have hout := Flow.of_answer?_eq_some hanswer
  obtain ⟨lines, t, hread⟩ := hreads _ hout
  exact ⟨s, lines, t, hstart, hread, (hsame _ _ _ _ hread hout).1.trans hlines⟩

/-- A story in which empty text stands between a line and glue. -/
def slipped : Story where
  script :=
    { knots :=
        [{ name := "start", id := ⟨1⟩, parameters := []
           objects := [.text "One", .lineBreak, .text "", .glue, .text " two.", .lineBreak]
           stitches := [], gathers := [], isFunction := false }]
      sound := rfl }

/-- The empty text counts as the start of the next line, so the first line is given out before the
glue opens it again. -/
theorem pacing_of_slipped :
    ∃ s t u, slipped.start = .ok s ∧ slipped.Reads s [⟨"One", []⟩, ⟨"two.", []⟩] t ∧
      slipped.runOut slipped.config.stepLimit s = .ok () u ∧
      u.output.lines = [⟨"One two.", []⟩] := by
  have hrun : (slipped.start.toOption.map fun s =>
      let run := slipped.runOut slipped.config.stepLimit
      let t := slipped.continueLine.after s
      let u := slipped.continueLine.after t
      ([slipped.continueLine.answer? s, slipped.continueLine.answer? t],
        [t.lineTags, u.lineTags], [u.canContinue, (run.answer? s).isSome],
        (run.after s).output.lines)) =
      some ([some "One", some "two."], [[], []], [false, true], [⟨"One two.", []⟩]) := by
    decide +kernel
  obtain ⟨s, hstart, hrun⟩ := exists_start hrun
  simp only [Prod.mk.injEq, List.cons.injEq, and_true] at hrun
  obtain ⟨⟨hfirst, hsecond⟩, ⟨htags, htags'⟩, ⟨hdone, hanswer⟩, hlines⟩ := hrun
  obtain ⟨_, hanswer⟩ := Option.isSome_iff_exists.mp hanswer
  have hreads := Reads.line (Flow.of_answer?_eq_some hfirst)
    (.line (Flow.of_answer?_eq_some hsecond) (.done hdone))
  rw [htags, htags'] at hreads
  exact ⟨s, _, _, hstart, hreads, Flow.of_answer?_eq_some hanswer, hlines⟩

end Story

end Skein
