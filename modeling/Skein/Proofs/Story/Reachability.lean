import Skein.Proofs.Story.Moves
import Skein.Story.Play

set_option autoImplicit false

/-!
# Story: the states that a story can come to

From its start a story comes to other states by what its host asks of it and by the single
steps inside, and a request that fails leaves a state behind as well.  The steps of a function
are inside the step that calls it; a watch tells where among them to stop.

In every such state the frames, the scopes and the choices are in line.  And wherever there is
a frame, a function that gives an answer leaves the flow that called it as it was.
-/

namespace Skein

open Contract Outcome

namespace Flow

variable {α : Type}

/-- The state that a computation leaves, with an answer or with a failure. -/
def Leaves (x : Flow α) (s t : State) : Prop := (∃ a, x s = .ok a t) ∨ ∃ fault, x s = .error fault t

/-- The state that a computation leaves from a state. -/
def after (x : Flow α) (s : State) : State :=
  match x s with
  | .ok _ t => t
  | .error _ t => t

theorem after_of_eq_ok {x : Flow α} {s t : State} {a : α} (h : x s = .ok a t) : x.after s = t := by
  unfold after
  rw [h]

theorem leaves_after (x : Flow α) (s : State) : x.Leaves s (x.after s) := by
  unfold Leaves after
  cases x s with
  | ok a t => exact .inl ⟨a, rfl⟩
  | error fault t => exact .inr ⟨fault, rfl⟩

/-- The answer that a computation gives from a state, if it gives one. -/
def answer? (x : Flow α) (s : State) : Option α :=
  match x s with
  | .ok a _ => some a
  | .error _ _ => none

theorem of_answer?_eq_some {x : Flow α} {s : State} {a : α} (h : x.answer? s = some a) :
    x s = .ok a (x.after s) := by
  unfold answer? at h
  unfold after
  cases hrun : x s with
  | ok b t =>
      rw [hrun] at h
      cases h
      rfl
  | error fault t =>
      rw [hrun] at h
      cases h

theorem Leaves.ensured {x : Flow α} {s t : State} {good : State → Prop} (hleaves : x.Leaves s t)
    (h : Ensures (fun _ t => good t) (fun _ t => good t) (x s)) : good t := by
  rcases hleaves with ⟨a, hrun⟩ | ⟨fault, hrun⟩
  · rw [hrun] at h
    exact h
  · rw [hrun] at h
    exact h

/-- What holds in every state that a computation leaves is ensured by it. -/
theorem ensures_of_leaves {x : Flow α} {s : State} {good : State → Prop}
    (h : ∀ t, x.Leaves s t → good t) : Ensures (fun _ t => good t) (fun _ t => good t) (x s) := by
  cases hrun : x s with
  | ok a t => exact h t (.inl ⟨a, hrun⟩)
  | error fault t => exact h t (.inr ⟨fault, hrun⟩)

/-- Runs a body, but stops before it or after it in a state that a watch picks out. -/
def watched (halt : State → Bool) (body : Flow Unit) : Flow Unit := do
  if halt (← get) then throw .callDepthExceeded
  body
  if halt (← get) then throw .callDepthExceeded

/-- A watch that never stops anything changes nothing. -/
theorem watched_never (body : Flow Unit) : watched (fun _ => false) body = body := by
  funext s
  show EStateM.bind body (fun _ => pure ()) s = body s
  unfold EStateM.bind
  cases body s with
  | ok _ t => rfl
  | error fault t => rfl

theorem reaches_watched {halt : State → Bool} {body : Flow Unit} {s : State}
    {good : State → Prop} (hgood : ∀ t, good t → t.Active ∧ t.status = s.status) (h : s.Active)
    (hbody : body.Reaches s fun _ t => good t) :
    (watched halt body).Reaches s fun _ t => good t := by
  refine reaches_get ?_
  extract_lets stay
  split
  · exact reaches_throw h (by simp)
  · refine (hbody.mono fun _ t ht => ⟨(hgood t ht).2, ?_⟩).bind
    refine reaches_get ?_
    split
    · exact reaches_throw (hgood t ht).1 (by simp)
    · exact ht

end Flow

/-- Whether the wrong number of arguments is the cause. -/
def StoryFault.isArgumentCount : StoryFault → Bool
  | .structural (.argumentCount _ _ _) => true
  | _ => false

namespace Story

variable (story : Story)

/-! ## Functions under a watch -/

/-- Runs a function that may call others, to a given depth, and stops at the first step of
any of them that a watch picks out. -/
def watchedFunction (halt : State → Bool) : (depth : Nat) → Call
  | 0 => fun _ _ => throw .callDepthExceeded
  | depth + 1 => story.runBy (Flow.watched halt (story.step (watchedFunction halt depth)))

/-- Without a watch functions run as they do. -/
theorem watchedFunction_never (depth : Nat) :
    story.watchedFunction (fun _ => false) depth = story.runFunction depth := by
  induction depth with
  | zero => rfl
  | succ depth ih => rw [watchedFunction, Flow.watched_never, ih, runFunction, runIn]

variable {story} in
/-- A step inside a function stays in the function or ends it. -/
theorem reaches_stepWithin {run : Call} (hc : story.Honours run steady) {base s : State}
    (hbase : base.Active) (hwithin : base.Within s) (hsize : base.frames.size < s.frames.size) :
    (story.step run).Reaches s fun _ t => base.Within t := by
  have hs := hwithin.active hbase
  exact (reaches_step hc hs.toAligned).mono fun _ t ht =>
    (ht.moved hs.toAligned).within hwithin hsize

variable {story} in
/-- A step inside a function stays in the function or ends it, watched or not. -/
theorem reaches_watchedStep {run : Call} (hc : story.Honours run steady) (halt : State → Bool)
    {base s : State} (hbase : base.Active) (hwithin : base.Within s)
    (hsize : base.frames.size < s.frames.size) :
    (Flow.watched halt (story.step run)).Reaches s fun _ t => base.Within t := by
  have hs := hwithin.active hbase
  refine Flow.reaches_watched (fun t ht => ⟨ht.active hbase, ?_⟩) hs
    (reaches_stepWithin hc hbase hwithin hsize)
  exact ht.status.trans hwithin.status.symm

/-- Functions give back their frames, whatever they call. -/
theorem steady_watchedFunction (halt : State → Bool) (depth : Nat) :
    ∀ name args, steady.Holds (story.watchedFunction halt depth name args) := by
  induction depth with
  | zero =>
      intro name args
      exact holds_throw fun s h => h.failed (by simp)
  | succ depth ih =>
      intro name args
      have hc := story.honours_steady ih
      exact steady_runBy hc (fun _ _ => reaches_watchedStep hc halt) name args

theorem honours_runFunction (depth : Nat) : story.Honours (story.runFunction depth) steady := by
  have hc := story.honours_steady (story.steady_watchedFunction (fun _ => false) depth)
  rw [watchedFunction_never] at hc
  exact hc

/-- A function that comes to its end leaves the flow that called it as it was, up to the
values of its variables, to whatever depth it calls others. -/
theorem reaches_runFunction {s : State} (h : s.Active) (depth : Nat) (name : String)
    (arguments : List Argument) :
    (story.runFunction depth name arguments).Reaches s fun _ t =>
      s.SameFlow t ∧ t.store.shape = s.store.shape := by
  cases depth with
  | zero => exact Flow.reaches_throw h (by simp)
  | succ depth =>
      have hc := story.honours_runFunction depth
      exact reaches_runBy hc (fun _ _ => reaches_stepWithin hc) h name arguments

theorem honours_watchedFunction (halt : State → Bool) :
    story.Honours (story.watchedFunction halt story.config.callDepth) steady :=
  story.honours_steady (story.steady_watchedFunction halt _)

theorem honours_callFunction : story.Honours story.callFunction steady :=
  story.honours_runFunction _

variable {story} in
theorem stepped_of_step {s t : State} (hs : s.Aligned)
    (hstep : story.step story.callFunction s = .ok () t) : s.Stepped t := by
  have hreaches := reaches_step story.honours_callFunction hs
  rw [Flow.Reaches, hstep] at hreaches
  exact hreaches

/-! ## Requests -/

/-- What the host asks of a story. -/
inductive Request where
  | continueLine
  /-- Reads at most so many lines. -/
  | continueMaximally (bound : Nat)
  | choose (index : Nat)
  | choosePath (path : String)
  | setVariable (name : String) (value : Value)
  | observe (name : String)
  | bind (name : String) (f : External)

/-- Whether the host asks to go on from another path. -/
def Request.isPath : Request → Bool
  | .choosePath _ => true
  | _ => false

/-- Does what the host asks. -/
def perform : Request → Flow Unit
  | .continueLine => do let _ ← story.continueLine
  | .continueMaximally bound => do let _ ← story.continueMaximally bound
  | .choose index => chooseIndex index
  | .choosePath path => story.choosePath path
  | .setVariable name value => setVariable name value
  | .observe name => do let _ ← observe name
  | .bind name f => Story.bind name f

variable {story}

/-- Nothing moves, and nothing is counted. -/
structure Still (s t : State) : Prop extends State.SameTurn s t where
  frames : t.frames = s.frames
  visits : t.visits = s.visits

/-- The flow is left as it is, with its scopes. -/
structure Untouched (s t : State) : Prop extends Still s t where
  shape : t.store.shape = s.store.shape

theorem Untouched.depth {s t : State} (h : Untouched s t) : t.store.depth = s.store.depth := by
  rw [← Store.length_shape, ← Store.length_shape, h.shape]

/-- What a story keeps from one request to the next, and what it leaves behind where a
request fails: steps and choices keep the invariant, and so does all that leaves the flow
untouched. -/
structure Keeps (story : Story) (inv : State → Prop) (bad : StoryFault → State → Prop) : Prop where
  fail : ∀ {fault : StoryFault} {s : State}, fault ≠ .navigation .emptyFrameStack →
    inv s → bad fault s
  congr : ∀ {s t : State}, inv s → Untouched s t → inv t
  step : ∀ {s : State}, inv s → s.status = .running →
    Ensures (fun _ t => inv t) bad (story.step story.callFunction s)
  choose : ∀ {s : State} {choice : PendingChoice}, inv s → choice ∈ s.choices →
    inv (s.choose choice)

namespace Keeps

variable {inv : State → Prop} {bad : StoryFault → State → Prop} (hk : story.Keeps inv bad)
  {s : State} (h : inv s)

include hk h

theorem ensures_continueLine : Ensures (fun _ t => inv t) bad (story.continueLine s) := by
  unfold Story.continueLine Story.lineBy
  refine ensures_get ?_
  split
  · refine Ensures.bind ((Flow.ensures_repeatWhile inv ?_ ?_ _ h).mono ?_ fun _ _ ht => ht)
    · intro t ht _
      exact hk.fail (by simp) ht
    · intro t ht htest
      rw [Bool.and_eq_true] at htest
      exact hk.step ht (of_decide_eq_true htest.1)
    · rintro _ t ⟨ht, _⟩
      exact hk.congr ht ⟨⟨⟨rfl, rfl, rfl, rfl⟩, rfl, rfl⟩, rfl⟩
  · exact hk.fail (by simp) h

theorem ensures_readLines (read : List String) (bound : Nat) :
    Ensures (fun _ t => inv t) bad (readLinesBy story.continueLine read bound s) := by
  induction bound generalizing s read with
  | zero =>
      refine ensures_get ?_
      split
      · exact h
      · exact h
  | succ bound ih =>
      refine ensures_get ?_
      split
      · refine Ensures.bind ((hk.ensures_continueLine h).mono ?_ fun _ _ ht => ht)
        intro line t ht
        exact ih ht (if line.isEmpty then read else line :: read)
      · exact h

theorem ensures_chooseIndex (index : Nat) :
    Ensures (fun _ t => inv t) bad (chooseIndex index s) := by
  refine ensures_get ?_
  dsimp only
  split
  · next choice hchoice =>
      split
      · have hmem : choice ∈ s.choices :=
          (List.mem_filter.mp (List.mem_of_getElem? hchoice)).1
        exact hk.choose h hmem
      · exact hk.fail (by simp) h
  · exact hk.fail (by simp) h

theorem ensures_checkValue (value : Value) :
    Ensures (fun _ t => t = s) bad (checkValue value s) := by
  cases value with
  | list l =>
      refine ensures_get ?_
      cases s.store.registry.check l with
      | ok _ => exact rfl
      | error fault => exact hk.fail (by simp) h
  | bool _ | int _ | float _ | string _ => exact rfl

theorem ensures_setVariable (name : String) (value : Value) :
    Ensures (fun _ t => inv t) bad (setVariable name value s) := by
  unfold Story.setVariable
  refine ensures_get ?_
  dsimp only
  split
  · refine Ensures.bind ((hk.ensures_checkValue h value).mono ?_ fun _ _ ht => ht)
    rintro _ t rfl
    cases hset : t.store.set name value with
    | error fault => exact hk.fail (by simp) h
    | ok store =>
        exact hk.congr h ⟨⟨⟨rfl, rfl, rfl, rfl⟩, rfl, rfl⟩, Store.shape_of_set hset⟩
  · exact hk.fail (by simp) h

/-- Every request but the one for another path keeps the invariant. -/
theorem ensures_perform {request : Request} (hpath : request.isPath = false) :
    Ensures (fun _ t => inv t) bad (story.perform request s) := by
  cases request with
  | continueLine =>
      exact Ensures.bind ((hk.ensures_continueLine h).mono (fun _ _ ht => ht) fun _ _ ht => ht)
  | continueMaximally bound =>
      refine Ensures.bind (Ensures.bind ?_)
      exact (hk.ensures_readLines h [] bound).mono (fun _ _ ht => ht) fun _ _ ht => ht
  | choose index => exact hk.ensures_chooseIndex h index
  | choosePath path => cases hpath
  | setVariable name value => exact hk.ensures_setVariable h name value
  | observe name => exact hk.congr h ⟨⟨⟨rfl, rfl, rfl, rfl⟩, rfl, rfl⟩, rfl⟩
  | bind name f => exact hk.congr h ⟨⟨⟨rfl, rfl, rfl, rfl⟩, rfl, rfl⟩, rfl⟩

end Keeps

/-- Being in line is kept, and failures keep it too. -/
theorem keeps_aligned (story : Story) : story.Keeps State.Aligned fun _ t => t.Aligned where
  fail _ h := h
  congr h hsame := by
    refine h.congr ?_ hsame.depth hsame.choices
    rw [State.kinds, State.kinds, hsame.frames]
  step h _ :=
    Ensures.mono (reaches_step story.honours_callFunction h)
      (fun _ _ ht => (ht.moved h).aligned h) fun _ _ ht => ht.toAligned
  choose h hmem := (State.posed_choose (h.choices _ hmem)).toAligned

/-! ## Starting -/

/-- Where parameters get no arguments, there are none or their number is wrong. -/
theorem ensures_bindAt_nil (address : Address) (knot : Knot) (s : State) :
    Ensures (fun _ t => t = s) (fun fault t => t = s ∧ fault.isArgumentCount = true)
      (bindAt address knot [] s) := by
  cases address with
  | stitch _ _ => exact rfl
  | gather _ _ => exact rfl
  | knot _ =>
      simp only [bindAt, bindParameters]
      split
      · next hlength =>
          rw [List.length_nil, List.length_eq_zero_iff] at hlength
          rw [hlength]
          exact rfl
      · exact ⟨rfl, rfl⟩

theorem ensures_begin {s : State} (h : s.Active) (address : Address)
    (knot : Knot) (location : Location) :
    Ensures (fun _ t => t.Active ∧ t.status = .running)
      (fun fault t => t.Active ∧ fault.isArgumentCount = true)
      ((do
        bindAt address knot []
        modify fun t => { t.visitAll location.visits with status := .running } : Flow Unit) s) := by
  refine Ensures.bind ((ensures_bindAt_nil address knot s).mono ?_ ?_)
  · rintro _ t rfl
    have hvisit := State.kept_visitAll State.steady_visit t location.visits h
    have hvisited := hvisit.active h
    exact ⟨⟨hvisited.toAligned.congr rfl rfl rfl, hvisited.nonempty⟩, rfl⟩
  · rintro fault t ⟨rfl, hcount⟩
    exact ⟨h, hcount⟩

/-- Starting anew sets the flow running, wherever the story stood.  A start that fails leaves
the state alone, unless the number of arguments is wrong. -/
theorem ensures_startAt (story : Story) (path : String) (s : State) :
    Ensures (fun _ t => t.Active ∧ t.status = .running)
      (fun fault t => fault ≠ .navigation .emptyFrameStack ∧
        (t = s ∨ t.Active ∧ fault.isArgumentCount = true)) (story.startAt path s) := by
  unfold Story.startAt
  cases hresolve : story.script.resolve path none with
  | error fault =>
      refine ⟨?_, .inl rfl⟩
      rintro rfl
      exact story.script.resolve_ne_emptyFrameStack _ _ hresolve
  | ok address =>
      dsimp only
      cases hlocate : story.script.locate address with
      | error fault =>
          refine ⟨?_, .inl rfl⟩
          rintro ⟨⟩
          exact story.script.locate_ne_emptyFrameStack _ hlocate
      | ok location =>
          refine Ensures.bind ?_
          show Ensures _ _ ((story.knotAt location.knot >>= _) s)
          unfold Story.knotAt
          cases story.script.knot? location.knot with
          | none => exact ⟨by simp, .inl rfl⟩
          | some knot =>
              let fresh := { s with choices := [], frames := ∅, store := s.store.withScopes [] }
              have hroot : (fresh.pushFrame (.atLocation .root knot.objects location)).Active :=
                State.active_pushFrame_root rfl rfl (Store.depth_withScopes _ _) rfl
              have hbegin := ensures_begin hroot address knot location
              refine Ensures.mono hbegin (fun _ _ ht => ht) fun fault t ht => ⟨?_, .inr ht⟩
              rintro rfl
              cases ht.2

/-- A story that starts is running. -/
theorem active_of_start {s : State} (h : story.start = .ok s) :
    s.Active ∧ s.status = .running := by
  unfold Story.start at h
  split at h
  · next answer t hload =>
      cases h
      obtain ⟨_, declared, _, hentry⟩ := of_run_eq_ok hload
      cases hpath : story.entryPoint? with
      | none =>
          rw [hpath] at hentry
          cases hentry
      | some path =>
          rw [hpath] at hentry
          have hstart := story.ensures_startAt path declared
          dsimp only at hentry
          rw [hentry] at hstart
          exact hstart
  · cases h

/-- What a story keeps from one request to the next, and where it fails, is kept by a request for
another path as well if it holds wherever some flow is active. -/
theorem Keeps.ensures_request {inv : State → Prop} (hk : story.Keeps inv fun _ t => inv t)
    (hactive : ∀ {t : State}, t.Active → inv t) {s : State} (h : inv s) (request : Request) :
    Ensures (fun _ t => inv t) (fun _ t => inv t) (story.perform request s) := by
  cases hpath : request.isPath with
  | false => exact hk.ensures_perform h hpath
  | true =>
      cases request with
      | choosePath path =>
          refine (story.ensures_startAt path s).mono (fun _ _ ht => hactive ht.1) ?_
          rintro fault t ⟨_, rfl | ⟨ht, _⟩⟩
          · exact h
          · exact hactive ht
      | _ => cases hpath

/-! ## Reachable states -/

/-- The states that a story can come to from its start: by what the host asks and by single
steps, whether they succeed or fail.  Under a watch that never stops anything a step is the
story's own (`watchedFunction_never`); under others it ends before or after a step that a
function inside it makes. -/
inductive Reachable (story : Story) : State → Prop where
  | start {s : State} : story.start = .ok s → Reachable story s
  | request {s t : State} (request : Request) :
      Reachable story s → (story.perform request).Leaves s t → Reachable story t
  | step {s t : State} (halt : State → Bool) :
      Reachable story s →
        (story.step (story.watchedFunction halt story.config.callDepth)).Leaves s t →
        Reachable story t

/-- What is computed from the state at the start tells that the story starts. -/
theorem exists_start {α : Type} {f : State → α} {a : α}
    (h : story.start.toOption.map f = some a) : ∃ s, story.start = .ok s ∧ f s = a := by
  cases hstart : story.start with
  | error fault =>
      rw [hstart] at h
      cases h
  | ok s =>
      rw [hstart] at h
      exact ⟨s, rfl, Option.some.inj h⟩

theorem Reachable.aligned {s : State} (h : story.Reachable s) : s.Aligned := by
  induction h with
  | start hstart => exact (active_of_start hstart).1.toAligned
  | request request _ hleaves ih =>
      refine hleaves.ensured (story.keeps_aligned.ensures_request ?_ ih request)
      exact State.Active.toAligned
  | step halt _ hleaves ih =>
      refine hleaves.ensured ?_
      exact Ensures.mono (reaches_step (story.honours_watchedFunction halt) ih)
        (fun _ _ ht => (ht.moved ih).aligned ih) fun _ _ ht => ht.toAligned

/-! ## Places of frames -/

/-- In every state that a story can come to there are as many scopes as frames, and one if
there is no frame.  The outermost frame, and only it, is the main flow; every other frame was
entered from the one before it; and above a function there are only functions.  Every choice
on offer goes on with the main flow and with tunnels that were each entered from the frame
before. -/
theorem frames_of_reachable {s : State} (h : story.Reachable s) :
    s.store.depth = max 1 s.frames.size ∧
      (∀ (place : Nat) (frame : Frame), s.frames.items.reverse[place]? = some frame →
        (frame.kind = .root ↔ place = 0) ∧
          (place ≠ 0 → frame.kind.enteredFrom? = some (place - 1))) ∧
      (∀ (low high : Nat) (lower upper : Frame), low < high →
        s.frames.items.reverse[low]? = some lower → s.frames.items.reverse[high]? = some upper →
          lower.kind.isFunction = true → upper.kind.isFunction = true) ∧
      ∀ choice ∈ s.choices, choice.resume ≠ [] ∧
        ∀ (place : Nat) (frame : Frame) (scope : Scope),
          choice.resume.reverse[place]? = some (frame, scope) →
            frame.kind = if place = 0 then .root else .tunnel (place - 1) := by
  have haligned := h.aligned
  have hkind (place : Nat) (frame : Frame) (hframe : s.frames.items.reverse[place]? = some frame) :
      s.kinds.reverse[place]? = some frame.kind := by
    rw [State.kinds, ← List.map_reverse, List.getElem?_map, hframe, Option.map_some]
  refine ⟨by rw [s.frames.size_eq]; exact haligned.scopes, ?_, ?_, ?_⟩
  · intro place frame hframe
    obtain ⟨hroot, hfrom⟩ := enteredFrom?_of_isStacked haligned.frames (hkind place frame hframe)
    refine ⟨⟨fun hmain => ?_, hroot⟩, hfrom⟩
    cases place with
    | zero => rfl
    | succ place =>
        have hnone := hfrom (Nat.succ_ne_zero place)
        rw [hmain] at hnone
        cases hnone
  · intro low high lower upper hlt hlower hupper
    exact isFunction_above haligned.frames hlt (hkind low lower hlower) (hkind high upper hupper)
  · intro choice hchoice
    have hresumable := haligned.choices choice hchoice
    constructor
    · intro hnil
      rw [PendingChoice.kinds, hnil] at hresumable
      cases hresumable
    · intro place frame scope hframe
      refine eq_tunnel_of_isResumable hresumable ?_
      rw [PendingChoice.kinds, ← List.map_reverse, List.getElem?_map, hframe, Option.map_some]

/-- A story whose thread offers a choice and whose tunnel calls a function that diverts. -/
def trapped : Story where
  script :=
    { knots :=
        [{ name := "start", id := ⟨1⟩, parameters := []
           objects :=
             [.divert { kind := .thread, target := some "side" },
               .divert { kind := .tunnel, target := some "hall" }]
           stitches := [], gathers := [], isFunction := false },
         { name := "side", id := ⟨2⟩, parameters := []
           objects := [.choice ⟨5⟩ [⟨[.text "Leave"], [], false, [], false, false⟩]]
           stitches := [], gathers := [], isFunction := false },
         { name := "hall", id := ⟨3⟩, parameters := []
           objects := [.logic ⟨"trap()", [.function ⟨"trap", .story, 0⟩, .punct .opening,
             .punct .closing], [0]⟩]
           stitches := [], gathers := [], isFunction := false },
         { name := "trap", id := ⟨4⟩, parameters := []
           objects := [.divert { kind := .goto, target := some "start" }]
           stitches := [], gathers := [], isFunction := true }]
      sound := rfl }

/-- The function fails and stays on top of the tunnel and the main flow, with the choice of
the thread on offer. -/
theorem frames_of_trapped :
    ∃ s, trapped.Reachable s ∧ s.kinds = [.function 1, .tunnel 0, .root] ∧ s.choices.length = 1 ∧
      s.store.depth = max 1 s.frames.size ∧ ∀ choice ∈ s.choices, choice.resume ≠ [] := by
  have hrun : (match trapped.start with
      | .ok s =>
        match trapped.perform .continueLine s with
        | .error _ t => some (t.kinds, t.choices.length)
        | .ok _ _ => none
      | .error _ => none) = some ([.function 1, .tunnel 0, .root], 1) := by decide +kernel
  split at hrun
  · next s hstart =>
      split at hrun
      · next fault t hline =>
          have hreach : trapped.Reachable t :=
            .request .continueLine (.start hstart) (.inr ⟨fault, hline⟩)
          obtain ⟨hkinds, hchoices⟩ := Prod.mk.inj (Option.some.inj hrun)
          obtain ⟨hdepth, _, _, hresume⟩ := frames_of_reachable hreach
          exact ⟨t, hreach, hkinds, hchoices, hdepth,
            fun choice hchoice => (hresume choice hchoice).1⟩
      · cases hrun
  · cases hrun

/-! ## Calls of functions -/

/-- From every state that a story can come to with a frame, a function that gives an answer,
whatever it calls on the way, leaves the frames, the choices, the status, the turn, the choices
made and the answer that waits to be taken as they were.  There are as many scopes as before,
and each has the aliases it had and the same names of temporaries. -/
theorem flow_of_runFunction {s t : State} {depth : Nat} {name : String}
    {arguments : List Argument} {value : Option Value} (h : story.Reachable s)
    (hframes : s.frames.items ≠ [])
    (hrun : story.runFunction depth name arguments s = .ok value t) :
    t.frames = s.frames ∧ t.choices = s.choices ∧ t.status = s.status ∧ t.turn = s.turn ∧
      t.taken = s.taken ∧ t.returned = s.returned ∧ t.store.depth = s.store.depth ∧
      ∀ (place : Nat) (before after : Scope), s.store.scopes[place]? = some before →
        t.store.scopes[place]? = some after →
          after.aliases = before.aliases ∧ after.temporaries.keys = before.temporaries.keys := by
  have hreaches := story.reaches_runFunction ⟨h.aligned, hframes⟩ depth name arguments
  rw [Flow.Reaches, hrun] at hreaches
  obtain ⟨hflow, hshape⟩ := hreaches
  refine ⟨hflow.frames, hflow.choices, hflow.status, hflow.turn, hflow.taken, hflow.returned,
    ?_, ?_⟩
  · rw [← Store.length_shape, ← Store.length_shape, hshape]
  · intro place before after hbefore hafter
    have hplace : t.store.shape[place]? = s.store.shape[place]? := by rw [hshape]
    rw [Store.shape, Store.shape, List.getElem?_map, List.getElem?_map, hbefore, hafter,
      Option.map_some, Option.map_some, Option.some.injEq] at hplace
    obtain ⟨hkeys, haliases⟩ := Prod.mk.inj hplace
    exact ⟨haliases, hkeys⟩

/-- A story whose thread offers a choice, whose tunnel has two lines, and one of whose
functions calls the other. -/
def nested : Story where
  script :=
    { knots :=
        [{ name := "start", id := ⟨1⟩, parameters := []
           objects :=
             [.divert { kind := .thread, target := some "side" },
               .divert { kind := .tunnel, target := some "hall" }]
           stitches := [], gathers := [], isFunction := false },
         { name := "side", id := ⟨2⟩, parameters := []
           objects := [.choice ⟨6⟩ [⟨[.text "Leave"], [], false, [], false, false⟩]]
           stitches := [], gathers := [], isFunction := false },
         { name := "hall", id := ⟨3⟩, parameters := []
           objects := [.text "One", .lineBreak, .text "Two"]
           stitches := [], gathers := [], isFunction := false },
         { name := "outer", id := ⟨4⟩, parameters := [⟨"x", true⟩, ⟨"y", false⟩]
           objects := [.logic ⟨"inner()", [.function ⟨"inner", .story, 0⟩, .punct .opening,
             .punct .closing], [0]⟩, .text "outer"]
           stitches := [], gathers := [], isFunction := true },
         { name := "inner", id := ⟨5⟩, parameters := [], objects := [.text "inner"]
           stitches := [], gathers := [], isFunction := true }]
      sound := rfl }

/-- In the tunnel, with the choice of the thread on offer, a function binds a reference and a
value, calls the other one, and gives everything back. -/
theorem flow_of_nested :
    ∃ s t value, nested.Reachable s ∧ s.frames.items ≠ [] ∧ s.kinds = [.tunnel 0, .root] ∧
      s.choices.length = 1 ∧
      nested.runFunction 2 "outer" [⟨.int 1, some "n"⟩, ⟨.int 2, none⟩] s = .ok value t ∧
      t.frames = s.frames ∧ t.choices = s.choices ∧ t.store.depth = s.store.depth := by
  have hrun : (nested.start.toOption.map fun start =>
      let s := (nested.perform .continueLine).after start
      (s.kinds, s.choices.length,
        ((nested.runFunction 2 "outer" [⟨.int 1, some "n"⟩, ⟨.int 2, none⟩]).answer? s).isSome)) =
        some ([.tunnel 0, .root], 1, true) := by decide +kernel
  cases hstart : nested.start with
  | error fault =>
      rw [hstart] at hrun
      cases hrun
  | ok start =>
      rw [hstart] at hrun
      obtain ⟨hkinds, hrest⟩ := Prod.mk.inj (Option.some.inj hrun)
      obtain ⟨hchoices, hsome⟩ := Prod.mk.inj hrest
      obtain ⟨value, hanswer⟩ := Option.isSome_iff_exists.mp hsome
      have hcall := Flow.of_answer?_eq_some hanswer
      have hreach := (Reachable.start hstart).request .continueLine (Flow.leaves_after _ start)
      have hframes : ((nested.perform .continueLine).after start).frames.items ≠ [] := by
        intro hnil
        rw [State.kinds, hnil] at hkinds
        cases hkinds
      obtain ⟨hsame, hoffered, _, _, _, _, hdepth, _⟩ := flow_of_runFunction hreach hframes hcall
      exact ⟨_, _, value, hreach, hframes, hkinds, hchoices, hcall, hsame, hoffered, hdepth⟩

end Story

end Skein
