import Skein.Proofs.Story.Reachability

set_option autoImplicit false

/-!
# Story: what the status says

Between two requests the status of a story says what its flow is like: while it runs there is
a frame, at a choice there is none and some choice is shown, and at the end there is neither.
Failed requests are no exception, but for one: a request for another path that gives a knot
the wrong number of arguments enters the knot before it fails, and leaves the status alone.

Since flow that runs has a frame, a step never finds none.  What it would do then can be
replaced by anything, in the steps of functions too, and no request can tell.
-/

namespace Skein

open Outcome

namespace Flow

variable {test : State → Bool} {limit : Nat} {body other : Flow Unit}

/-- A loop does the same with another body that agrees with its own wherever it is run. -/
theorem repeatWhile_congr (inv : State → Prop)
    (hinv : ∀ s, inv s → test s = true → Ensures (fun _ t => inv t) (fun _ _ => True) (body s))
    (hbody : ∀ s, inv s → test s = true → other s = body s) (remaining : Nat) {s : State}
    (hs : inv s) :
    repeatWhile test limit other remaining s = repeatWhile test limit body remaining s := by
  induction remaining generalizing s with
  | zero => rfl
  | succ remaining ih =>
      cases htest : test s with
      | false => rw [repeatWhile_of_false htest, repeatWhile_of_false htest]
      | true =>
          rw [repeatWhile_of_true htest, repeatWhile_of_true htest]
          exact (hinv s hs htest).bind_congr (hbody s hs htest) fun _ t ht => ih ht

end Flow

namespace Story

variable (story : Story)

/-! ## Steps without a frame -/

/-- A step that does something else where no frame is left. -/
def stepElse (idle : Flow Unit) (run : Call) : Flow Unit := do
  if (← get).frames.isEmpty then idle else story.step run

theorem stepElse_eq (idle : Flow Unit) (run : Call) {s : State} (h : s.frames.items ≠ []) :
    story.stepElse idle run s = story.step run s := by
  have hempty : s.frames.isEmpty = false := by simpa [Stack.isEmpty] using h
  show (if s.frames.isEmpty = true then idle else story.step run : Flow Unit) s = _
  rw [hempty]
  rfl

/-- Runs a function that may call others, to a given depth, with such steps. -/
def functionElse (idle : Flow Unit) : (depth : Nat) → Call
  | 0 => fun _ _ => throw .callDepthExceeded
  | depth + 1 => story.runBy (story.stepElse idle (functionElse idle depth))

/-- While a function runs its frame is there, so a body may do anything where there is
none. -/
theorem runBy_congr {body other : Flow Unit} (h : ∀ s, s.frames.items ≠ [] → other s = body s) :
    story.runBy other = story.runBy body := by
  have hloop (depth : Nat) :
      Flow.repeatWhile (fun s => depth < s.frames.size) story.config.stepLimit other
          story.config.stepLimit =
        Flow.repeatWhile (fun s => depth < s.frames.size) story.config.stepLimit body
          story.config.stepLimit := by
    funext s
    refine Flow.repeatWhile_congr (fun _ => True) ?_ ?_ _ trivial
    · intro t _ _
      cases body t with
      | ok _ _ => trivial
      | error _ _ => trivial
    · intro t _ htest
      refine h t fun hnil => ?_
      have hsize := of_decide_eq_true htest
      rw [t.frames.size_eq, hnil, List.length_nil] at hsize
      omega
  funext name arguments
  unfold Story.runBy
  simp only [hloop]

theorem functionElse_eq (idle : Flow Unit) (depth : Nat) :
    story.functionElse idle depth = story.runFunction depth := by
  induction depth with
  | zero => rfl
  | succ depth ih =>
      rw [functionElse, ih, runFunction, runIn]
      exact story.runBy_congr fun s h => story.stepElse_eq idle _ h

/-- Does what the host asks, with a body in place of the steps of the story. -/
def performBy (body : Flow Unit) : Request → Flow Unit
  | .continueLine => do let _ ← story.lineBy body
  | .continueMaximally bound => do let _ ← linesBy (story.lineBy body) bound
  | request => story.perform request

/-- Does what the host asks, with steps that do something else where no frame is left. -/
def performElse (idle : Flow Unit) : Request → Flow Unit :=
  story.performBy (story.stepElse idle (story.functionElse idle story.config.callDepth))

variable {story}

theorem readLinesBy_congr {readLine other : Flow String} (inv : State → Prop)
    (hinv : ∀ s, inv s → Ensures (fun _ t => inv t) (fun _ _ => True) (readLine s))
    (hline : ∀ s, inv s → other s = readLine s) (read : List String) (bound : Nat) {s : State}
    (hs : inv s) : readLinesBy other read bound s = readLinesBy readLine read bound s := by
  induction bound generalizing read s with
  | zero => rfl
  | succ bound ih =>
      show (if s.canContinue = true then _ else _ : Flow (Option (List String))) s =
        (if s.canContinue = true then _ else _ : Flow (Option (List String))) s
      cases s.canContinue with
      | false => rfl
      | true => exact (hinv s hs).bind_congr (hline s hs) fun line t ht => ih _ ht

theorem lineBy_congr {body other : Flow Unit} (inv : State → Prop)
    (hinv : ∀ s, inv s → s.status = .running →
      Ensures (fun _ t => inv t) (fun _ _ => True) (body s))
    (hbody : ∀ s, inv s → s.status = .running → other s = body s) {s : State} (hs : inv s) :
    story.lineBy other s = story.lineBy body s := by
  have hrunning {t : State} (htest : (decide (t.status = .running) && !t.lineSettled) = true) :
      t.status = .running := of_decide_eq_true (Bool.and_eq_true_iff.mp htest).1
  show (if s.canContinue = true then _ else _ : Flow String) s =
    (if s.canContinue = true then _ else _ : Flow String) s
  cases s.canContinue with
  | false => rfl
  | true =>
      refine bind_congr_left (Flow.repeatWhile_congr inv ?_ ?_ _ hs) _
      · intro t ht htest
        exact hinv t ht (hrunning htest)
      · intro t ht htest
        exact hbody t ht (hrunning htest)

/-! ## States between requests -/

/-- What the status says is kept, and nothing fails for want of a frame. -/
theorem keeps_posed (story : Story) : story.Keeps State.Posed fun fault t =>
    t.Posed ∧ fault ≠ .navigation .emptyFrameStack where
  fail hfault h := ⟨h, hfault⟩
  congr h hsame := h.congr hsame.frames hsame.depth hsame.choices hsame.status
  step h hrunning := by
    have hactive : State.Active _ := ⟨h.toAligned, h.running hrunning⟩
    refine Ensures.mono (reaches_step story.honours_callFunction h.toAligned) ?_ ?_
    · intro _ t ht
      exact (ht.moved h.toAligned).posed hactive hrunning
    · intro fault t ht
      exact ⟨ht.toActive.posed (ht.status.trans hrunning), ht.fault_ne⟩
  choose h hmem := State.posed_choose (h.choices _ hmem)

/-- Every request leaves a status that says what the flow is like, unless it is one for a path
and fails because of the number of arguments. -/
theorem ensures_posed (story : Story) {s : State} (h : s.Posed) (request : Request) :
    Ensures (fun _ t => t.Posed)
      (fun fault t => fault ≠ .navigation .emptyFrameStack ∧
        ((request.isPath = true → fault.isArgumentCount = false) → t.Posed))
      (story.perform request s) := by
  cases hpath : request.isPath with
  | false =>
      refine (story.keeps_posed.ensures_perform h hpath).mono (fun _ _ ht => ht) ?_
      intro fault t ht
      exact ⟨ht.2, fun _ => ht.1⟩
  | true =>
      cases request with
      | choosePath path =>
          refine (story.ensures_startAt path s).mono (fun _ t ht => ht.1.posed ht.2) ?_
          rintro fault t ⟨hfault, rfl | ⟨_, hcount⟩⟩
          · exact ⟨hfault, fun _ => h⟩
          · refine ⟨hfault, fun hnot => ?_⟩
            rw [hnot rfl] at hcount
            cases hcount
      | _ => cases hpath

/-- Where the status says what the flow is like, no request comes to a step without a
frame. -/
theorem performElse_eq (idle : Flow Unit) {s : State} (h : s.Posed) (request : Request) :
    story.performElse idle request s = story.perform request s := by
  have hkeep {t : State} (ht : t.Posed) (hrunning : t.status = .running) :
      Ensures (fun _ u => u.Posed) (fun _ _ => True) (story.step story.callFunction t) :=
    (story.keeps_posed.step ht hrunning).mono (fun _ _ hu => hu) fun _ _ _ => trivial
  have hline (t : State) (ht : t.Posed) :
      story.lineBy (story.stepElse idle (story.functionElse idle story.config.callDepth)) t =
        story.continueLine t := by
    refine lineBy_congr State.Posed (fun _ hu => hkeep hu) (fun u hu hrunning => ?_) ht
    rw [functionElse_eq]
    exact story.stepElse_eq idle _ (hu.running hrunning)
  cases request with
  | continueLine => exact bind_congr_left (hline s h) _
  | continueMaximally bound =>
      refine bind_congr_left (bind_congr_left (readLinesBy_congr State.Posed ?_ hline _ _ h) _) _
      intro t ht
      exact (story.keeps_posed.ensures_continueLine ht).mono (fun _ _ hu => hu) fun _ _ _ => trivial
  | _ => rfl

/-- The states that a story is in between two requests, done or failed, other than requests
for a path that fail because of the number of arguments. -/
inductive Played (story : Story) : State → Prop where
  | start {s : State} : story.start = .ok s → Played story s
  | done {s t : State} (request : Request) :
      Played story s → story.perform request s = .ok () t → Played story t
  | failed {s t : State} {fault : StoryFault} (request : Request) :
      Played story s → story.perform request s = .error fault t →
        (request.isPath = true → fault.isArgumentCount = false) → Played story t

theorem Played.posed {s : State} (h : story.Played s) : s.Posed := by
  induction h with
  | start hstart =>
      obtain ⟨hactive, hrunning⟩ := active_of_start hstart
      exact hactive.posed hrunning
  | done request _ hdone ih =>
      have hposed := story.ensures_posed ih request
      rw [hdone] at hposed
      exact hposed
  | failed request _ hfailed hcount ih =>
      have hposed := story.ensures_posed ih request
      rw [hfailed] at hposed
      exact hposed.2 hcount

theorem Played.leaves {s t : State} (h : story.Played s) (request : Request)
    (hpath : request.isPath = false) (hleaves : (story.perform request).Leaves s t) :
    story.Played t := by
  rcases hleaves with ⟨_, hdone⟩ | ⟨fault, hfailed⟩
  · exact .done request h hdone
  · refine .failed request h hfailed fun htrue => ?_
    rw [hpath] at htrue
    cases htrue

/-- Between two requests a story that is running has a frame, one at a choice has none and
shows a choice, and one that has ended has neither a frame nor a choice.  So no request comes
to a step without a frame, whatever such a step would do, and none fails for want of one. -/
theorem status_of_played {s : State} (h : story.Played s) :
    (s.status = .running → s.frames.items ≠ []) ∧
      (s.status = .atChoice → s.frames.items = [] ∧ ∃ choice ∈ s.choices, choice.fallback = false) ∧
      (s.status = .ended → s.frames.items = [] ∧ s.choices = []) ∧
      ∀ request : Request,
        (∀ idle : Flow Unit, story.performElse idle request s = story.perform request s) ∧
          ∀ t, story.perform request s ≠ .error (.navigation .emptyFrameStack) t := by
  have hposed := h.posed
  refine ⟨hposed.running, fun hstatus => ?_, hposed.ended, fun request => ⟨fun idle => ?_, ?_⟩⟩
  · obtain ⟨hframes, hshown⟩ := hposed.atChoice hstatus
    obtain ⟨choice, hchoice⟩ := List.exists_mem_of_ne_nil _ hshown
    rw [State.visibleChoices, List.mem_filter] at hchoice
    exact ⟨hframes, choice, hchoice.1, by simpa using hchoice.2⟩
  · exact performElse_eq idle hposed request
  · intro t herror
    have hensures := story.ensures_posed hposed request
    rw [herror] at hensures
    exact hensures.1 rfl

/-- The function in the tunnel fails and leaves its frame, which the next request runs out of;
then the choice of the thread is on offer, and once it is made the story ends. -/
theorem status_of_trapped :
    ∃ s t u, trapped.Played s ∧ trapped.Played t ∧ trapped.Played u ∧
      (s.status = .running ∧ s.frames.items ≠ []) ∧
      (t.status = .atChoice ∧ t.frames.items = [] ∧
        ∃ choice ∈ t.choices, choice.fallback = false) ∧
      (u.status = .ended ∧ u.frames.items = [] ∧ u.choices = []) ∧
      ∀ idle, trapped.performElse idle .continueLine s = trapped.perform .continueLine s := by
  have hrun : (trapped.start.toOption.map fun start =>
      let s := (trapped.perform .continueLine).after start
      let t := (trapped.perform .continueLine).after s
      let u := (trapped.perform .continueLine).after ((trapped.perform (.choose 0)).after t)
      (s.status, t.status, u.status)) = some (.running, .atChoice, .ended) := by decide +kernel
  cases hstart : trapped.start with
  | error fault =>
      rw [hstart] at hrun
      cases hrun
  | ok start =>
      rw [hstart] at hrun
      obtain ⟨hrunning, hrest⟩ := Prod.mk.inj (Option.some.inj hrun)
      obtain ⟨hchoice, hended⟩ := Prod.mk.inj hrest
      have hs := (Played.start hstart).leaves .continueLine rfl (Flow.leaves_after _ start)
      have ht := hs.leaves .continueLine rfl (Flow.leaves_after _ _)
      have hchosen := ht.leaves (.choose 0) rfl (Flow.leaves_after _ _)
      have hu := hchosen.leaves .continueLine rfl (Flow.leaves_after _ _)
      exact ⟨_, _, _, hs, ht, hu, ⟨hrunning, (status_of_played hs).1 hrunning⟩,
        ⟨hchoice, (status_of_played ht).2.1 hchoice⟩,
        ⟨hended, (status_of_played hu).2.2.1 hended⟩,
        ((status_of_played hs).2.2.2 .continueLine).1⟩

end Story

end Skein
