import Skein.Proofs.Story.Alignment
import Skein.Proofs.Story.Effects

set_option autoImplicit false

/-!
# Story: how a step moves

A step runs one node.  It goes on within the innermost frame, or it gives the frame of a
function back, or, outside of functions only, it moves about freely.  Evaluating an expression
moves nothing, since a function that it calls gives back its frame; and a function does so
because its steps cannot leave it in any other way.  The two are proved from one another,
function by function down the depth of calls.

Wherever a step fails, some flow is still active and the status is what it was: coming to rest
is the last thing that a step does.
-/

namespace Skein

open Contract Outcome

/-! ## Evaluation stays where it is -/

/-- A failure leaves some flow active, with the status there was, and it is not for want of a
frame. -/
structure State.Failed (s : State) (fault : StoryFault) (t : State) : Prop extends Active t where
  status : t.status = s.status
  fault_ne : fault ≠ .navigation .emptyFrameStack

theorem State.Active.failed {s : State} (h : s.Active) {fault : StoryFault}
    (hfault : fault ≠ .navigation .emptyFrameStack) : s.Failed fault s := ⟨h, rfl, hfault⟩

theorem State.Failed.of_status {s t u : State} {fault : StoryFault} (h : t.Failed fault u)
    (hstatus : t.status = s.status) : s.Failed fault u :=
  ⟨h.toActive, h.status.trans hstatus, h.fault_ne⟩

/-- From an active state: what succeeds moves nothing, and what fails leaves some flow
active. -/
def steady : Contract StoryFault State where
  kept s t := s.Active → s.SameFlow t
  failed s fault t := s.Active → s.Failed fault t
  refl s _ := .refl s
  trans hst htu h := (hst h).trans (htu ((hst h).active h))
  failed_trans hst htu h := (htu ((hst h).active h)).of_status (hst h).status

theorem State.sameFlow_withStore {s : State} {store : Store}
    (hshape : store.outerShape = s.store.outerShape) : s.SameFlow { s with store := store } :=
  ⟨⟨rfl, rfl, rfl, rfl⟩, rfl, hshape, rfl⟩

theorem State.inFunction_of_inTunnel {s : State} (h : s.inTunnel = true) :
    s.inFunction = false := by
  unfold State.inTunnel at h
  unfold State.inFunction
  cases htop : s.topKind? with
  | none => rfl
  | some kind =>
      rw [htop] at h
      cases kind with
      | tunnel depth => rfl
      | root | function _ | thread _ => cases h

/-- Flow that does not move is steady if the calls of functions are. -/
theorem Story.honours_steady (story : Story) {run : Call}
    (hrun : ∀ name args, steady.Holds (run name args)) : story.Honours run steady where
  host :=
    { fail := fun _ _ h => h.failed (by simp [Story.host])
      set := fun hset _ => State.sameFlow_withStore
        (Store.outerShape_of_shape (Store.shape_of_set hset))
      declare := fun _ _ _ _ => State.sameFlow_withStore rfl
      random := fun _ _ _ _ => ⟨⟨rfl, rfl, rfl, rfl⟩, rfl, rfl, rfl⟩
      reseed := fun _ _ _ => ⟨⟨rfl, rfl, rfl, rfl⟩, rfl, rfl, rfl⟩
      callStory := hrun
      callExternal := Story.holds_callExternal (fun _ _ h => h.failed (by simp))
        fun _ _ _ => ⟨⟨rfl, rfl, rfl, rfl⟩, rfl, rfl, rfl⟩ }
  fail hfault _ h := h.failed hfault
  nextGroup _ _ _ _ _ := ⟨⟨rfl, rfl, rfl, rfl⟩, rfl, rfl, rfl⟩
  addAlias _ _ _ _ := State.sameFlow_withStore rfl

theorem State.steady_visit (s : State) (id : NodeId) : steady.kept s (s.visit id) :=
  fun _ => ⟨⟨rfl, rfl, rfl, rfl⟩, rfl, rfl, rfl⟩

namespace Flow

variable {α β : Type}

/-- From a state the computation comes out as stated, or it fails and leaves some flow
active. -/
def Reaches (x : Flow α) (s : State) (good : α → State → Prop) : Prop :=
  Ensures good s.Failed (x s)

theorem Reaches.mono {x : Flow α} {s : State} {good good' : α → State → Prop}
    (h : x.Reaches s good) (hgood : ∀ a t, good a t → good' a t) : x.Reaches s good' :=
  Ensures.mono h hgood fun _ _ ht => ht

/-- Failures are told from the status at the start, so only a first part that keeps the
status may be followed by a second one. -/
theorem Reaches.bind {x : Flow α} {f : α → Flow β} {s : State} {good : β → State → Prop}
    (h : x.Reaches s fun a t => t.status = s.status ∧ (f a).Reaches t good) :
    (x >>= f).Reaches s good := by
  refine Ensures.bind (Ensures.mono h ?_ fun _ _ ht => ht)
  rintro a t ⟨hstatus, ht⟩
  exact Ensures.mono ht (fun _ _ hu => hu) fun _ _ hu => hu.of_status hstatus

theorem reaches_pure {a : α} {f : α → Flow β} {s : State} {good : β → State → Prop}
    (h : (f a).Reaches s good) : (pure a >>= f).Reaches s good := h

theorem reaches_get {f : State → Flow β} {s : State} {good : β → State → Prop}
    (h : (f s).Reaches s good) : (get >>= f).Reaches s good := h

theorem reaches_modify {f : State → State} {g : Unit → Flow β} {s : State}
    {good : β → State → Prop} (hstatus : (f s).status = s.status)
    (h : (g ()).Reaches (f s) good) : (modify f >>= g).Reaches s good :=
  Ensures.mono h (fun _ _ ht => ht) fun _ _ ht => ht.of_status hstatus

theorem reaches_modifyGet {f : State → α × State} {g : α → Flow β} {s : State}
    {good : β → State → Prop} (hstatus : (f s).2.status = s.status)
    (h : (g (f s).1).Reaches (f s).2 good) : (modifyGet f >>= g).Reaches s good :=
  Ensures.mono h (fun _ _ ht => ht) fun _ _ ht => ht.of_status hstatus

theorem reaches_throw {fault : StoryFault} {s : State} {good : α → State → Prop} (h : s.Active)
    (hfault : fault ≠ .navigation .emptyFrameStack) : (throw fault : Flow α).Reaches s good :=
  h.failed hfault

/-- What is steady moves nothing. -/
theorem reaches_of_steady {x : Flow α} {s : State} (hx : steady.Holds x) (h : s.Active) :
    x.Reaches s fun _ t => s.SameFlow t :=
  Ensures.mono (hx.allows s) (fun _ _ hst => hst h) fun _ _ ht => ht h

theorem steady_of_reaches {x : Flow α}
    (hx : ∀ s, s.Active → x.Reaches s fun _ t => s.SameFlow t) : steady.Holds x := by
  refine ⟨fun s => ?_⟩
  cases hrun : x s with
  | ok a t =>
      intro h
      have hreaches := hx s h
      rw [Reaches, hrun] at hreaches
      exact hreaches
  | error e t =>
      intro h
      have hreaches := hx s h
      rw [Reaches, hrun] at hreaches
      exact hreaches

/-- After something steady one goes on from where one was. -/
theorem reaches_steady_bind {x : Flow α} {f : α → Flow β} {s : State} {good : β → State → Prop}
    (hx : steady.Holds x) (h : s.Active)
    (hf : ∀ a t, t.Active → s.SameFlow t → (f a).Reaches t good) : (x >>= f).Reaches s good :=
  ((reaches_of_steady hx h).mono fun a t hst =>
    ⟨hst.status, hf a t (hst.active h) hst⟩).bind

section Loops

variable {test : State → Bool} {limit : Nat} {body : Flow Unit}

theorem repeatWhile_of_false {s : State} (htest : test s = false) (remaining : Nat) :
    repeatWhile test limit body remaining s = .ok () s := by
  cases remaining with
  | zero =>
      show (if test s = true then throw _ else pure () : Flow Unit) s = _
      rw [htest]
      rfl
  | succ remaining =>
      show (if test s = true then _ else pure () : Flow Unit) s = _
      rw [htest]
      rfl

theorem repeatWhile_of_true {s : State} (htest : test s = true) (remaining : Nat) :
    repeatWhile test limit body (remaining + 1) s =
      (body >>= fun _ => repeatWhile test limit body remaining) s := by
  show (if test s = true then _ else pure () : Flow Unit) s = _
  rw [htest]
  rfl

theorem repeatWhile_zero {s : State} (htest : test s = true) :
    repeatWhile test limit body 0 s = .error (.stepLimitExceeded limit) s := by
  show (if test s = true then throw _ else pure () : Flow Unit) s = _
  rw [htest]
  rfl

/-- A loop keeps what its body keeps, and where it ends the test fails. -/
theorem ensures_repeatWhile {bad : StoryFault → State → Prop} (inv : State → Prop)
    (hlimit : ∀ s, inv s → test s = true → bad (.stepLimitExceeded limit) s)
    (hbody : ∀ s, inv s → test s = true → Ensures (fun _ t => inv t) bad (body s))
    (remaining : Nat) {s : State} (hs : inv s) :
    Ensures (fun _ t => inv t ∧ test t = false) bad (repeatWhile test limit body remaining s) := by
  induction remaining generalizing s with
  | zero =>
      cases htest : test s with
      | false =>
          rw [repeatWhile_of_false htest]
          exact ⟨hs, htest⟩
      | true =>
          rw [repeatWhile_zero htest]
          exact hlimit s hs htest
  | succ remaining ih =>
      cases htest : test s with
      | false =>
          rw [repeatWhile_of_false htest]
          exact ⟨hs, htest⟩
      | true =>
          rw [repeatWhile_of_true htest]
          exact Ensures.bind ((hbody s hs htest).mono (fun _ t ht => ih ht) fun _ _ ht => ht)

end Loops

end Flow

/-- Whether a node sends control elsewhere, or offers choices. -/
def Node.moves : Node → Bool
  | .divert _ | .choice _ _ => true
  | _ => false

namespace State

/-- What a step does: it goes on within the innermost frame, or it gives the frame of a
function back, or it moves the flow outside of functions. -/
inductive Moved (s t : State) : Prop where
  | on (h : s.SameBelow t)
  | back (hin : s.inFunction = true) (h : s.LeftFrame t)
  | off (hout : s.inFunction = false) (h : s.Arrived t)

theorem Moved.of_sameBelow {s t u : State} (hst : s.SameBelow t) (h : t.Moved u) : s.Moved u := by
  cases h with
  | on htu => exact .on (hst.trans htu)
  | back hin htu => exact .back (hst.inFunction_eq.symm.trans hin) (hst.leftFrame htu)
  | off hout hu => exact .off (hst.inFunction_eq.symm.trans hout) (hu.of_status hst.status)

theorem Moved.aligned {s t : State} (h : s.Moved t) (hs : s.Aligned) : t.Aligned := by
  cases h with
  | on hst => exact hst.aligned hs
  | back hin hst => exact hst.aligned hs hin
  | off _ ht => exact ht.aligned

/-- A step of running flow leaves a status that says what the flow is like. -/
theorem Moved.posed {s t : State} (h : s.Moved t) (hs : s.Active)
    (hrunning : s.status = .running) : t.Posed := by
  cases h with
  | on hst => exact (hst.active hs).posed (hst.status.trans hrunning)
  | back hin hst => exact (hst.active hs hin).posed (hst.status.trans hrunning)
  | off _ ht => exact ht.of_running hrunning

/-- A step inside a function stays in the function or ends it. -/
theorem Moved.within {base s t : State} (h : s.Moved t) (hwithin : Within base s)
    (hsize : base.frames.size < s.frames.size) : Within base t := by
  cases h with
  | on hst => exact hwithin.sameBelow hsize hst
  | back hin hst => exact hwithin.leftFrame hsize hst
  | off hout _ =>
      rw [(hwithin.inFunction hsize).1] at hout
      cases hout

/-- Choices are offered behind those there were, and no frame moves. -/
structure Offering (s t : State) : Prop extends Active t where
  frames_eq : t.frames = s.frames
  status_eq : t.status = s.status
  turn_eq : t.turn = s.turn
  taken_eq : t.taken = s.taken
  offers : s.choices <+: t.choices

theorem SameFlow.offering {s t : State} (hst : s.SameFlow t) (ht : t.Active) : s.Offering t :=
  ⟨ht, hst.frames, hst.status, hst.turn, hst.taken, hst.choices ▸ List.prefix_rfl⟩

theorem Offering.trans {s t u : State} (hst : s.Offering t) (htu : t.Offering u) : s.Offering u :=
  ⟨htu.toActive, htu.frames_eq.trans hst.frames_eq, htu.status_eq.trans hst.status_eq,
    htu.turn_eq.trans hst.turn_eq, htu.taken_eq.trans hst.taken_eq, hst.offers.trans htu.offers⟩

/-! ## What diverts and choices do -/

/-- Where a plain divert leads: to the end of the story, to the end of the flow, or to a place
for the innermost frame. -/
inductive Went (s : State) (target : String) (t : State) : Prop where
  | ended (htarget : target = endTarget) (h : t = s.finish)
  | done (hend : target ≠ endTarget) (htarget : target = doneTarget) (h : t = s.endFlow)
  | moved (hend : target ≠ endTarget) (hdone : target ≠ doneTarget) (h : s.SameBelow t)

/-- A frame is entered on top of those there are. -/
structure Entered (s : State) (kind : FrameKind) (t : State) : Prop where
  active : t.Active
  turn : s.SameTurn t
  frames : ∃ frame, frame.kind = kind ∧ t.frames.items = frame :: s.frames.items

/-- Where a divert leads: out of a tunnel and perhaps on to a target, into a tunnel or a thread,
or wherever its target is. -/
inductive Diverted (s : State) (d : Divert) (t : State) : Prop where
  | back (hkind : d.kind = .tunnelReturn) (hin : s.inTunnel = true) (htarget : d.target = none)
      (h : t = s.dropFrame)
  | onward {target : String} (hkind : d.kind = .tunnelReturn) (hin : s.inTunnel = true)
      (htarget : d.target = some target) (h : s.dropFrame.Went target t)
  | tunnel (hkind : d.kind = .tunnel) (h : s.Entered (.tunnel (s.frames.size - 1)) t)
  | thread (hkind : d.kind = .thread) (h : s.Entered (.thread (s.frames.size - 1)) t)
  | went (hkind : d.kind = .goto) (h : s.Went (d.target.getD "") t)

/-- Choices are offered; then a thread gives way, and any other flow comes to rest. -/
inductive Offered (s t : State) : Prop where
  | way {u : State} (hin : s.inThread = true) (hoffers : s.Offering u) (h : t = u.dropFrame)
  | rest {u : State} (hin : s.inThread = false) (hoffers : s.Offering u) (h : t = u.rest)

theorem Went.arrived {s t : State} {target : String} (h : s.Went target t) (hs : s.Active) :
    s.Arrived t := by
  cases h with
  | ended _ h =>
      rw [h]
      exact .posed (posed_finish s)
  | done _ _ h =>
      rw [h]
      exact hs.endFlow
  | moved _ _ h => exact .active (h.active hs) h.status

theorem Diverted.arrived {s t : State} {d : Divert} (h : s.Diverted d t) (hs : s.Active) :
    s.Arrived t := by
  cases h with
  | back _ hin _ h =>
      rw [h]
      exact .active (hs.dropFrame FrameKind.isTunnel hin rfl) rfl
  | onward _ hin _ h =>
      exact (h.arrived (hs.dropFrame FrameKind.isTunnel hin rfl)).of_status rfl
  | tunnel _ h => exact .active h.active h.turn.status
  | thread _ h => exact .active h.active h.turn.status
  | went _ h => exact h.arrived hs

theorem inThread_congr {s t : State} (hframes : t.frames = s.frames) : t.inThread = s.inThread := by
  rw [inThread, inThread, topKind?, topKind?, hframes]

theorem Offered.arrived {s t : State} (h : s.Offered t) : s.Arrived t := by
  cases h with
  | way hin hoffers h =>
      rw [h]
      rw [← inThread_congr hoffers.frames_eq] at hin
      exact .active (hoffers.toActive.dropFrame FrameKind.isThread hin rfl) hoffers.status_eq
  | rest _ hoffers h =>
      rw [h]
      exact .posed (posed_rest hoffers.choices)

/-! ## What a node and a step do -/

/-- What running a node does. -/
inductive Ran (s : State) (node : Node) (t : State) : Prop where
  | on (hnode : node.moves = false) (h : s.SameBelow t)
  | back (hnode : node.moves = false) (hin : s.inFunction = true) (h : s.LeftFrame t)
  | diverted {d : Divert} (hnode : node = .divert d) (hout : s.inFunction = false)
      (h : s.Diverted d t)
  | offered {id : NodeId} {entries : List Entry} (hnode : node = .choice id entries)
      (hout : s.inFunction = false) (h : s.Offered t)

/-- The cursor at the node that a step runs, and the innermost frame past that node. -/
def next? (s : State) : Option (Cursor × Frame) := s.frames.top?.bind Frame.next?

/-- The node that a step runs. -/
def node? (s : State) : Option Node := s.next?.bind (·.1.peek?)

/-- What a step does: it comes to rest without a frame, it leaves a frame that has run out, or
it goes past a node of the innermost frame and runs it. -/
inductive Stepped (s t : State) : Prop where
  | idle (htop : s.frames.top? = none) (h : t = s.rest)
  | finished {frame : Frame} (htop : s.frames.top? = some frame) (hnext : s.next? = none)
      (h : t = s.finishFrame)
  | passed {cursor : Cursor} {frame : Frame} (hactive : s.Active)
      (hnext : s.next? = some (cursor, frame)) (hnode : cursor.peek? = none) (h : s.SameBelow t)
  | ran {cursor : Cursor} {frame : Frame} {node : Node} {u : State} (hactive : s.Active)
      (hnext : s.next? = some (cursor, frame)) (hnode : cursor.peek? = some node)
      (hpast : u.frames = s.frames.mapTop fun _ => frame) (hon : s.SameBelow u) (h : u.Ran node t)

theorem Ran.moved {s t : State} {node : Node} (h : s.Ran node t) (hs : s.Active) : s.Moved t := by
  cases h with
  | on _ h => exact .on h
  | back _ hin h => exact .back hin h
  | diverted _ hout h => exact .off hout (h.arrived hs)
  | offered _ hout h => exact .off hout h.arrived

/-- A frame that has run out is left: a function returns, any other flow ends or gives way. -/
theorem Active.moved_finishFrame {s : State} (h : s.Active) : s.Moved s.finishFrame := by
  cases hin : s.inFunction with
  | false => exact .off hin h.finishFrame
  | true =>
      refine .back hin ?_
      have hreturn := (h.leftFrame_dropFrame hin).withReturned (some none)
      unfold inFunction at hin
      unfold State.finishFrame
      cases htop : s.topKind? with
      | none =>
          rw [htop] at hin
          cases hin
      | some kind =>
          rw [htop] at hin
          cases kind with
          | function caller => exact hreturn
          | root | tunnel _ | thread _ => cases hin

theorem Stepped.moved {s t : State} (h : s.Stepped t) (hs : s.Aligned) : s.Moved t := by
  cases h with
  | idle htop h =>
      rw [h]
      refine .off ?_ (.posed (posed_rest hs.choices))
      rw [inFunction, topKind?, htop]
      rfl
  | finished htop _ h =>
      rw [h]
      exact (Active.of_aligned hs htop).moved_finishFrame
  | passed _ _ _ h => exact .on h
  | ran hactive _ _ _ hon h => exact (h.moved (hon.active hactive)).of_sameBelow hon

end State

namespace Story

variable {story : Story} {run : Call}

/-! ## The cases of a step -/

theorem kind_next? {frame frame' : Frame} {cursor : Cursor}
    (h : frame.next? = some (cursor, frame')) : frame'.kind = frame.kind := by
  unfold Frame.next? at h
  obtain ⟨_, _, hframe⟩ := Option.map_eq_some_iff.mp h
  rw [← (Prod.mk.inj hframe).2]

/-- The state in which a step runs the node at a cursor: the innermost frame is past the node, and
the gather that starts there is counted. -/
def past (story : Story) (s : State) (cursor : Cursor) (frame : Frame) : State :=
  story.arrive frame.knot cursor { s with frames := s.frames.mapTop fun _ => frame }

theorem frames_past (story : Story) (s : State) (cursor : Cursor) (frame : Frame) :
    (story.past s cursor frame).frames = s.frames.mapTop fun _ => frame := by
  unfold past Story.arrive
  split
  · split <;> rfl
  · rfl

theorem output_past (story : Story) (s : State) (cursor : Cursor) (frame : Frame) :
    (story.past s cursor frame).output = s.output := by
  unfold past Story.arrive
  split
  · split <;> rfl
  · rfl

section Next

variable {s : State} {frame next : Frame} {cursor : Cursor}

theorem step_of_idle (htop : s.frames.top? = none) : story.step run s = .ok () s.rest := by
  unfold Story.step
  refine (run_of_eq_ok (rfl : (get : Flow State) s = .ok s s)).trans ?_
  rw [htop]
  rfl

variable (htop : s.frames.top? = some frame)

include htop

theorem step_of_finished (hnext : frame.next? = none) :
    story.step run s = .ok () s.finishFrame := by
  unfold Story.step
  refine (run_of_eq_ok (rfl : (get : Flow State) s = .ok s s)).trans ?_
  rw [htop]
  dsimp only
  rw [hnext]
  rfl

variable (hnext : frame.next? = some (cursor, next))

include hnext

theorem sameBelow_past : s.SameBelow (story.past s cursor next) := by
  have hmoved : s.SameBelow { s with frames := s.frames.mapTop fun _ => next } := by
    refine State.sameBelow_mapTop fun top htop' => ?_
    rw [htop, Option.mem_some_iff] at htop'
    rw [kind_next? hnext, htop']
  refine hmoved.trans ?_
  unfold past Story.arrive
  split
  · split
    · exact ⟨⟨rfl, rfl, rfl, rfl⟩, rfl, rfl, rfl⟩
    · exact (State.SameFlow.refl _).sameBelow
  · exact (State.SameFlow.refl _).sameBelow

theorem step_of_passed (hnode : cursor.peek? = none) :
    story.step run s = .ok () (story.past s cursor next) := by
  unfold Story.step
  refine (run_of_eq_ok (rfl : (get : Flow State) s = .ok s s)).trans ?_
  rw [htop]
  dsimp only
  rw [hnext]
  dsimp only
  rw [hnode]
  rfl

theorem step_of_node {node : Node} (hnode : cursor.peek? = some node) :
    story.step run s = story.execute run next.knot node (story.past s cursor next) := by
  unfold Story.step
  refine (run_of_eq_ok (rfl : (get : Flow State) s = .ok s s)).trans ?_
  rw [htop]
  dsimp only
  rw [hnext]
  dsimp only
  rw [hnode]
  rfl

end Next

section Steps

variable (hc : story.Honours run steady)

include hc

/-! ## Diverts -/

omit hc in
theorem reaches_relocate {s : State} (h : s.Active) (knot : Knot) (location : Location) :
    (relocate knot location).Reaches s fun _ t => s.SameBelow t := by
  have hempty : s.frames.isEmpty = false := by simpa [Stack.isEmpty] using h.nonempty
  refine Flow.reaches_get ?_
  rw [hempty]
  exact State.sameBelow_mapTop fun frame _ => rfl

/-- Binding parameters and counting visits is the end of every move to a place. -/
theorem steady_settle (address : Address) (knot : Knot) (arguments : List Argument)
    (location : Location) :
    steady.Holds (do
      bindAt address knot arguments
      modify (·.visitAll location.visits)) :=
  (hc.holds (·.all.holds_bindAt address knot arguments)).bind fun _ =>
    holds_modify fun s => State.kept_visitAll State.steady_visit s location.visits

theorem reaches_goto {s : State} (h : s.Active) (target : String) (args : List Expression) :
    (story.goto run target args).Reaches s fun _ t => s.Went target t := by
  unfold Story.goto
  split
  · next hend => exact .ended hend rfl
  next hend =>
  split
  · next hdone => exact .done hend hdone rfl
  next hdone =>
    refine Flow.reaches_get ?_
    refine Flow.reaches_steady_bind (hc.holds (·.all.holds_find target)) h ?_
    intro (address, location) t ht hst
    refine Flow.reaches_steady_bind (hc.holds (·.holds_divertArguments args)) ht ?_
    intro arguments u hu htu
    refine Flow.reaches_steady_bind (hc.holds (·.all.holds_knotAt _)) hu fun knot v hv huv => ?_
    refine ((reaches_relocate hv knot location).mono fun _ w hvw => ⟨hvw.status, ?_⟩).bind
    have hsw := ((hst.trans htu).trans huv).sameBelow.trans hvw
    have hw := hvw.active hv
    have hsettle := steady_settle hc address knot arguments location
    extract_lets settle
    split
    · have hreset : steady.Holds (Flow.modifyStore Store.resetScope) :=
        holds_modify fun s _ => State.sameFlow_withStore rfl
      exact (Flow.reaches_of_steady (hreset.bind fun _ => hsettle) hw).mono
        fun _ t hwt => .moved hend hdone (hsw.trans hwt.sameBelow)
    · exact (Flow.reaches_of_steady hsettle hw).mono
        fun _ t hwt => .moved hend hdone (hsw.trans hwt.sameBelow)

/-- A tunnel or a thread is entered from outside of functions. -/
theorem reaches_call {s : State} (h : s.Active) (hout : s.inFunction = false)
    {kind : Nat → FrameKind} (hkind : ∀ depth, (kind depth).enteredFrom? = some depth)
    (target : String) (args : List Expression) :
    (story.call run kind target args).Reaches s fun _ t =>
      s.Entered (kind (s.frames.size - 1)) t := by
  unfold Story.call
  refine Flow.reaches_steady_bind (hc.holds (·.all.holds_find target)) h ?_
  intro (address, location) t ht hst
  refine Flow.reaches_steady_bind (hc.holds (·.holds_divertArguments args)) ht ?_
  intro arguments u hu htu
  refine Flow.reaches_steady_bind (hc.holds (·.all.holds_knotAt _)) hu fun knot v hv huv => ?_
  refine Flow.reaches_modify rfl ?_
  have hsv := (hst.trans htu).trans huv
  have hin : v.inFunction = false := by
    rw [hsv.sameBelow.inFunction_eq, hout]
  have hpush : (v.pushFrame (.atLocation (kind (v.frames.size - 1)) knot.objects
      location)).Active := by
    refine hv.pushFrame (hkind _) ?_
    intro hfunction
    rw [hin] at hfunction
    cases hfunction
  have hturn : v.SameTurn (v.pushFrame (.atLocation (kind (v.frames.size - 1)) knot.objects
      location)) := ⟨rfl, rfl, rfl, rfl⟩
  refine (Flow.reaches_of_steady (steady_settle hc address knot arguments location) hpush).mono
    fun _ w hw => ⟨hw.active hpush, hsv.toSameTurn.trans (hturn.trans hw.toSameTurn),
      .atLocation (kind (v.frames.size - 1)) knot.objects location, ?_, ?_⟩
  · rw [← hsv.frames]
    rfl
  · rw [hw.frames, ← hsv.frames]
    rfl

theorem reaches_leaveTunnel {s : State} (h : s.Active) {d : Divert}
    (hkind : d.kind = .tunnelReturn) :
    (story.leaveTunnel run d).Reaches s fun _ t => s.inFunction = false ∧ s.Diverted d t := by
  unfold Story.leaveTunnel
  refine Flow.reaches_get ?_
  split
  · next htunnel =>
      have hdrop := h.dropFrame FrameKind.isTunnel htunnel rfl
      have hout := State.inFunction_of_inTunnel htunnel
      refine Flow.reaches_modify rfl ?_
      split
      · next target htarget =>
          exact (reaches_goto hc hdrop _ _).mono fun _ t ht =>
            ⟨hout, .onward hkind htunnel htarget ht⟩
      · next htarget => exact ⟨hout, .back hkind htunnel htarget rfl⟩
  · exact Flow.reaches_throw h (by simp)

/-- Only outside of functions does a divert lead anywhere. -/
theorem reaches_divert {s : State} (h : s.Active) (d : Divert) :
    (story.divert run d).Reaches s fun _ t => s.inFunction = false ∧ s.Diverted d t := by
  unfold Story.divert
  split
  · next hkind => exact reaches_leaveTunnel hc h hkind
  next hreturn =>
  refine Flow.reaches_get ?_
  split
  · exact Flow.reaches_throw h (by simp)
  next hin =>
    have hout : s.inFunction = false := by simpa using hin
    split
    · next hkind =>
        exact (reaches_call hc h hout (fun _ => rfl) _ _).mono
          fun _ t ht => ⟨hout, .tunnel hkind ht⟩
    · next hkind =>
        exact (reaches_call hc h hout (fun _ => rfl) _ _).mono
          fun _ t ht => ⟨hout, .thread hkind ht⟩
    · next htunnel hthread =>
        have hkind : d.kind = .goto := by
          cases hkind : d.kind with
          | goto => rfl
          | tunnel => exact absurd hkind htunnel
          | tunnelReturn => exact absurd hkind hreturn
          | thread => exact absurd hkind hthread
        exact (reaches_goto hc h _ _).mono fun _ t ht => ⟨hout, .went hkind ht⟩

omit hc in
/-- Only a function can be left with a value. -/
theorem reaches_leaveFunction {s : State} (h : s.Active) (value : Option Value) :
    (leaveFunction value).Reaches s fun _ t => s.inFunction = true ∧ s.LeftFrame t := by
  refine Flow.reaches_get ?_
  split
  · next hin =>
      exact ⟨hin, (h.leftFrame_dropFrame hin).withReturned _⟩
  · exact Flow.reaches_throw h (by simp)

/-! ## Offers -/

theorem reaches_offerEntry {s : State} (h : s.Active) {block : Block}
    (hresume : isResumable (block.resume.map (·.1.kind)) = true) (place : Nat) (entry : Entry) :
    (story.offerEntry run block place entry).Reaches s fun _ t => s.Offering t := by
  unfold Story.offerEntry
  refine Flow.reaches_get ?_
  split
  · exact (State.SameFlow.refl s).offering h
  refine Flow.reaches_steady_bind (hc.holds (·.holds_allHold _)) h fun holds t ht hst => ?_
  split
  · refine Flow.reaches_steady_bind (hc.holds (·.holds_choiceText entry)) ht ?_
    intro rendered u hu htu
    have hsu := hst.trans htu
    refine ⟨⟨⟨hu.scopes, hu.frames, ?_⟩, hu.nonempty⟩, hsu.frames, hsu.status, hsu.turn, hsu.taken,
      hsu.choices ▸ List.prefix_append _ _⟩
    intro choice hchoice
    rcases List.mem_append.mp hchoice with hold | hnew
    · exact hu.choices choice hold
    · obtain rfl := List.mem_singleton.mp hnew
      exact hresume
  · exact hst.offering ht

theorem reaches_offerEntries {s : State} (h : s.Active) {block : Block}
    (hresume : isResumable (block.resume.map (·.1.kind)) = true) (place : Nat)
    (entries : List Entry) :
    (story.offerEntries run block place entries).Reaches s fun _ t => s.Offering t := by
  induction entries generalizing place s with
  | nil => exact (State.SameFlow.refl s).offering h
  | cons entry rest ih =>
      refine ((reaches_offerEntry hc h hresume place entry).mono fun _ t ht => ?_).bind
      exact ⟨ht.status_eq, (ih ht.toActive _).mono fun _ u hu => ht.trans hu⟩

/-- Only outside of functions are choices offered. -/
theorem reaches_offer {s : State} (h : s.Active) (knot : KnotId) (id : NodeId)
    (entries : List Entry) :
    (story.offer run knot id entries).Reaches s fun _ t => s.inFunction = false ∧ s.Offered t := by
  unfold Story.offer
  refine Flow.reaches_get ?_
  split
  · exact Flow.reaches_throw h (by simp)
  next hin =>
    have hout : s.inFunction = false := by simpa using hin
    have hresume :
        isResumable ((resumePoint s.frames.items s.store.scopes).map (·.1.kind)) = true :=
      isResumable_resumePoint h.nonempty h.frames (h.isFunction_eq_false hout)
    refine ((reaches_offerEntries hc h hresume 0 entries).mono fun _ t ht => ?_).bind
    refine ⟨ht.status_eq, ?_⟩
    dsimp only
    split
    · next hthread =>
        have hempty : t.frames.isEmpty = false := by simpa [Stack.isEmpty] using ht.nonempty
        refine Flow.reaches_get ?_
        rw [hempty]
        exact ⟨hout, .way hthread ht rfl⟩
    · next hthread => exact ⟨hout, .rest (by simpa using hthread) ht rfl⟩

/-! ## Steps -/

theorem reaches_execute {s : State} (h : s.Active) (knot : KnotId) (node : Node) :
    (story.execute run knot node).Reaches s fun _ t => s.Ran node t := by
  have hpush (hnode : node.moves = false) (content : Content) (t : State) (hst : s.SameFlow t) :
      s.Ran node (t.pushContent content) :=
    .on hnode (hst.sameBelow.trans (State.sameBelow_pushContent t content))
  cases node with
  | text _ | lineBreak | glue | tag _ | marker _ | global _ | list _ =>
      exact .on rfl ⟨⟨rfl, rfl, rfl, rfl⟩, rfl, rfl, rfl⟩
  | interpolation e =>
      refine Flow.reaches_steady_bind (hc.holds (·.holds_value e)) h fun value t ht hst => ?_
      cases value with
      | none => exact .on rfl hst.sameBelow
      | some v => exact .on rfl (hst.sameBelow.trans ⟨⟨rfl, rfl, rfl, rfl⟩, rfl, rfl, rfl⟩)
  | logic e =>
      refine Flow.reaches_steady_bind (hc.holds (·.holds_evaluate e)) h ?_
      intro evaluation t ht hst
      split
      · refine (reaches_leaveFunction ht _).mono fun _ u hu => ?_
        refine .back rfl ?_ (hst.sameBelow.leftFrame hu.2)
        rw [← hst.sameBelow.inFunction_eq]
        exact hu.1
      · exact .on rfl hst.sameBelow
  | divert d => exact (reaches_divert hc h d).mono fun _ t ht => .diverted rfl ht.1 ht.2
  | choice id entries =>
      exact (reaches_offer hc h knot id entries).mono fun _ t ht => .offered rfl ht.1 ht.2
  | conditional subject branches otherwise =>
      refine Flow.reaches_steady_bind (hc.holds (·.holds_pickBranch? subject branches)) h ?_
      intro place t _ hst
      exact hpush rfl _ t hst
  | sequence id kind groups =>
      refine Flow.reaches_steady_bind (hc.holds (·.holds_pickGroup? id kind groups.length)) h ?_
      intro place t _ hst
      exact hpush rfl _ t hst

/-- What one step does. -/
theorem reaches_step {s : State} (h : s.Aligned) :
    (story.step run).Reaches s fun _ t => s.Stepped t := by
  unfold Flow.Reaches
  cases htop : s.frames.top? with
  | none =>
      rw [step_of_idle htop]
      exact .idle htop rfl
  | some frame =>
      have hactive := State.Active.of_aligned h htop
      have hnext? : s.next? = frame.next? := by
        rw [State.next?, htop, Option.bind_some]
      cases hnext : frame.next? with
      | none =>
          rw [step_of_finished htop hnext]
          exact .finished htop (hnext?.trans hnext) rfl
      | some next =>
          obtain ⟨cursor, frame'⟩ := next
          have hpast : s.SameBelow (story.past s cursor frame') := sameBelow_past htop hnext
          cases hnode : cursor.peek? with
          | none =>
              rw [step_of_passed htop hnext hnode]
              exact .passed hactive (hnext?.trans hnext) hnode hpast
          | some node =>
              rw [step_of_node htop hnext hnode]
              refine Ensures.mono (reaches_execute hc (hpast.active hactive) _ _) ?_
                fun _ _ ht => ?_
              · intro _ t ht
                exact .ran hactive (hnext?.trans hnext) hnode (frames_past _ _ _ _) hpast ht
              · exact ht.of_status hpast.status

/-! ## Functions -/

omit hc in
/-- Repeating a body that stays within a function does so too, until the function ends. -/
theorem reaches_repeatWithin {body : Flow Unit}
    (hbody : ∀ base s, base.Active → State.Within base s → base.frames.size < s.frames.size →
      body.Reaches s fun _ t => State.Within base t)
    {base s : State} (h : base.Active) (hs : base.Within s) (limit remaining : Nat) :
    (Flow.repeatWhile (fun t => base.frames.size < t.frames.size) limit body remaining).Reaches s
      fun _ t => base.Within t ∧ ¬base.frames.size < t.frames.size := by
  refine (Flow.ensures_repeatWhile base.Within ?_ ?_ remaining hs).mono ?_ fun _ _ ht => ht
  · intro t ht _
    exact ⟨ht.active h, ht.status.trans hs.status.symm, by simp⟩
  · intro t ht htest
    refine Ensures.mono (hbody base t h ht (of_decide_eq_true htest)) (fun _ _ hu => hu) ?_
    intro fault u hu
    exact hu.of_status (ht.status.trans hs.status.symm)
  · rintro _ t ⟨ht, htest⟩
    exact ⟨ht, of_decide_eq_false htest⟩

/-- A function that comes to its end leaves the flow that called it as it was, up to the
values of its variables, if the body that is repeated stays within the function. -/
theorem reaches_runBy {body : Flow Unit}
    (hbody : ∀ base s, base.Active → State.Within base s → base.frames.size < s.frames.size →
      body.Reaches s fun _ t => State.Within base t)
    {s : State} (h : s.Active) (name : String) (arguments : List Argument) :
    (story.runBy body name arguments).Reaches s fun _ t =>
      s.SameFlow t ∧ t.store.shape = s.store.shape := by
  unfold Story.runBy
  split
  · exact Flow.reaches_throw h (by simp)
  next id _ =>
    unfold Story.knotAt
    cases hlocate : story.script.locate (.knot id) with
    | error fault =>
        refine Flow.reaches_throw h ?_
        rintro ⟨⟩
        exact story.script.locate_ne_emptyFrameStack _ hlocate
    | ok location =>
        cases story.script.knot? id with
        | none => exact Flow.reaches_throw h (by simp)
        | some knot =>
            refine Flow.reaches_pure (Flow.reaches_pure ?_)
            split
            · refine Flow.reaches_get (Flow.reaches_modify rfl ?_)
              have hcalled : s.Within (s.pushFrame
                  (.atLocation (.function (s.frames.size - 1)) knot.objects location)) :=
                State.within_pushFrame h rfl
              refine Flow.reaches_steady_bind (hc.holds (·.all.holds_bindParameters knot arguments))
                (hcalled.active h) fun _ t ht hst => ?_
              have hvisited := State.kept_visitAll State.steady_visit t location.visits ht
              refine Flow.reaches_modify hvisited.status (Flow.reaches_modifyGet rfl ?_)
              have hready := hst.trans hvisited
              have hentered := hcalled.sameBelow (Nat.lt_succ_self _) hready.sameBelow
              refine ((reaches_repeatWithin hbody h (hentered.withReturned none) _ _).mono
                fun _ t ⟨ht, htest⟩ => ⟨?_, ?_⟩).bind
              · exact ht.status.trans hentered.status.symm
              · obtain ⟨hframes, hshape⟩ := ht.frames_eq htest
                exact ⟨⟨⟨ht.choices, ht.status, ht.turn, ht.taken⟩, hframes,
                  Store.outerShape_of_shape hshape, hready.returned⟩, hshape⟩
            · exact Flow.reaches_throw h (by simp)

end Steps

/-- A function is steady if the body that is repeated stays within it. -/
theorem steady_runBy (hc : story.Honours run steady) {body : Flow Unit}
    (hbody : ∀ base s, base.Active → State.Within base s → base.frames.size < s.frames.size →
      body.Reaches s fun _ t => State.Within base t)
    (name : String) (arguments : List Argument) :
    steady.Holds (story.runBy body name arguments) :=
  Flow.steady_of_reaches fun _ h =>
    (reaches_runBy hc hbody h name arguments).mono fun _ _ ht => ht.1

end Story

end Skein
