import Skein.Proofs.Story.Reachability

set_option autoImplicit false

/-!
# Story: threads

A thread is a side flow.  It runs at once, on top of the flow that spawned it, and gives way to
that flow where it offers choices, is done or runs out.  The choices gathered so far stay where
they are, so those of the spawning flow come behind those of its threads.

Whether a flow gives way is told from the innermost frame alone.  In a tunnel that a thread has
entered, choices and `DONE` therefore bring everything to rest, with the flow that spawned the
thread.  `State.halts` says when that happens, and a run without such steps is a `Strand`.
-/

namespace Skein

open Outcome

namespace State

/-! ## Steps that halt -/

/-- Whether a plain divert to the target ends everything: the story is over, or the flow is and
it is no thread. -/
def stopsAt (s : State) (target : String) : Bool :=
  target = endTarget || target = doneTarget && !s.inThread

/-- Whether running the node brings everything to rest. -/
def haltsAt (s : State) : Node → Bool
  | .choice _ _ => !s.inThread
  | .divert d =>
    match d.kind with
    | .goto => s.stopsAt (d.target.getD "")
    | .tunnelReturn => d.target.any s.dropFrame.stopsAt
    | .tunnel | .thread => false
  | _ => false

/-- Whether the next step brings everything to rest. -/
def halts (s : State) : Bool :=
  match s.next? with
  | some (cursor, _) => cursor.peek?.any s.haltsAt
  | none => s.topKind?.all (· = .root)

/-- Everything comes to rest, with the choices gathered before and perhaps some more, or the story
ends. -/
def Rests (s t : State) : Prop :=
  ∃ u : State, s.choices <+: u.choices ∧ (t = u.rest ∨ t = u.finish)

theorem topKind?_eq (s : State) : s.topKind? = s.kinds.head? := List.head?_map.symm

theorem inThread_of_kinds {s t : State} (h : t.kinds = s.kinds) : t.inThread = s.inThread := by
  rw [inThread, inThread, topKind?_eq, topKind?_eq, h]

theorem stopsAt_of_kinds {s t : State} (h : t.kinds = s.kinds) : t.stopsAt = s.stopsAt := by
  funext target
  rw [stopsAt, stopsAt, inThread_of_kinds h]

theorem inFunction_of_forall {s : State}
    (h : ∀ frame ∈ s.frames.items, frame.kind.isFunction = false) : s.inFunction = false := by
  rw [inFunction, topKind?, Stack.top?]
  cases hitems : s.frames.items with
  | nil => rfl
  | cons frame below => exact h frame (hitems ▸ List.mem_cons_self)

theorem haltsAt_of_kinds {s t : State} (h : t.kinds = s.kinds) (node : Node) :
    t.haltsAt node = s.haltsAt node := by
  have hdrop : t.dropFrame.kinds = s.dropFrame.kinds := by
    have htail := congrArg List.tail h
    rwa [kinds, kinds, ← List.map_tail, ← List.map_tail] at htail
  cases node with
  | choice id entries => rw [haltsAt, haltsAt, inThread_of_kinds h]
  | divert d => rw [haltsAt, haltsAt, stopsAt_of_kinds h, stopsAt_of_kinds hdrop]
  | _ => rfl

end State

/-! ## Steps that go on -/

/-- How the frames change in a step that halts nothing, innermost first. -/
inductive Shift : List Frame → List Frame → Prop where
  /-- The innermost frame moves within itself. -/
  | on {top top' : Frame} {below : List Frame} :
      top'.kind = top.kind → Shift (top :: below) (top' :: below)
  /-- A tunnel or a thread is entered. -/
  | into {top top' frame : Frame} {below : List Frame} :
      top'.kind = top.kind → frame.kind.isFunction = false →
        Shift (top :: below) (frame :: top' :: below)
  /-- The innermost frame is left. -/
  | out {top : Frame} {below : List Frame} : Shift (top :: below) below
  /-- A tunnel is left for a place in the frame around it. -/
  | across {top next next' : Frame} {below : List Frame} :
      top.kind.isTunnel = true → next'.kind = next.kind →
        Shift (top :: next :: below) (next' :: below)
  /-- A tunnel is left together with the thread around it. -/
  | past {top next : Frame} {below : List Frame} :
      top.kind.isTunnel = true → Shift (top :: next :: below) below

namespace Shift

theorem of_kind {top top' : Frame} {below items : List Frame} (hkind : top'.kind = top.kind)
    (h : Shift (top' :: below) items) : Shift (top :: below) items := by
  cases h with
  | on h => exact .on (h.trans hkind)
  | into h hframe => exact .into (h.trans hkind) hframe
  | out => exact .out
  | across htunnel h => exact .across (hkind ▸ htunnel) h
  | past htunnel => exact .past (hkind ▸ htunnel)

/-- No frame becomes a function. -/
theorem isFunction_eq_false {items items' : List Frame} (h : Shift items items')
    (hitems : ∀ frame ∈ items, frame.kind.isFunction = false) :
    ∀ frame ∈ items', frame.kind.isFunction = false := by
  cases h with
  | on h | into h _ | across _ h => simp_all
  | out | past _ => simp_all

/-- A thread of the given kind lies on the frames of the flow that spawned it, with the frames
that it has entered on top; or all of them are gone. -/
def Atop (kind : FrameKind) (base items : List Frame) : Prop :=
  items = base ∨ ∃ above thread, thread.kind = kind ∧ items = above ++ thread :: base

/-- While the thread is there its steps leave the frames below alone.  Only a tunnel is left for a
place in the frame around it, and a thread is no tunnel. -/
theorem atop {kind : FrameKind} {base items items' : List Frame} (h : Shift items items')
    (hkind : kind.isThread = true) (hitems : Atop kind base items)
    (hlength : base.length < items.length) : Atop kind base items' := by
  obtain rfl | ⟨above, thread, hthread, rfl⟩ := hitems
  · exact absurd hlength (Nat.lt_irrefl _)
  have hnot : thread.kind.isTunnel = false := by
    rw [hthread]
    cases kind with
    | thread depth => rfl
    | root | tunnel _ | function _ => cases hkind
  cases above with
  | nil =>
      rw [List.nil_append] at h
      cases h with
      | on h => exact .inr ⟨[], _, h.trans hthread, rfl⟩
      | into h _ => exact .inr ⟨[_], _, h.trans hthread, rfl⟩
      | out => exact .inl rfl
      | across htunnel _ | past htunnel =>
          rw [hnot] at htunnel
          cases htunnel
  | cons top above =>
      rw [List.cons_append] at h
      generalize hbelow : above ++ thread :: base = below at h
      cases h with
      | on _ => exact .inr ⟨_ :: above, thread, hthread, by rw [← hbelow]; rfl⟩
      | into _ _ => exact .inr ⟨_ :: _ :: above, thread, hthread, by rw [← hbelow]; rfl⟩
      | out => exact .inr ⟨above, thread, hthread, hbelow.symm⟩
      | across _ h =>
          cases above with
          | nil =>
              obtain ⟨rfl, rfl⟩ := List.cons.inj hbelow
              exact .inr ⟨[], _, h.trans hthread, rfl⟩
          | cons next above =>
              obtain ⟨rfl, rfl⟩ := List.cons.inj hbelow
              exact .inr ⟨_ :: above, thread, hthread, rfl⟩
      | past _ =>
          cases above with
          | nil => exact .inl (List.cons.inj hbelow).2.symm
          | cons next above => exact .inr ⟨above, thread, hthread, (List.cons.inj hbelow).2.symm⟩

end Shift

namespace State

/-- A step halts nothing: the flow is still active, and the choices gathered before are still
there. -/
structure Proceeds (s t : State) : Prop where
  active : t.Active
  status : t.status = s.status
  turn : t.turn = s.turn
  choices : s.choices <+: t.choices
  frames : Shift s.frames.items t.frames.items

theorem SameBelow.items {s t : State} (h : s.SameBelow t) (hs : s.Active) :
    ∃ top top' below, top'.kind = top.kind ∧ s.frames.items = top :: below ∧
      t.frames.items = top' :: below := by
  have hkinds := h.kinds
  have hbelow := h.below
  rw [State.kinds, State.kinds] at hkinds
  cases hitems : s.frames.items with
  | nil => exact absurd hitems hs.nonempty
  | cons top below =>
      rw [hitems] at hkinds hbelow
      cases hitems' : t.frames.items with
      | nil =>
          rw [hitems'] at hkinds
          cases hkinds
      | cons top' below' =>
          rw [hitems'] at hkinds hbelow
          obtain rfl : below' = below := hbelow
          exact ⟨top, top', below', (List.cons.inj hkinds).1, rfl, rfl⟩

theorem SameBelow.proceeds {s t : State} (h : s.SameBelow t) (hs : s.Active) : s.Proceeds t := by
  obtain ⟨top, top', below, hkind, hitems, hitems'⟩ := h.items hs
  refine ⟨h.active hs, h.status, h.turn, h.choices ▸ List.prefix_rfl, ?_⟩
  rw [hitems, hitems']
  exact .on hkind

theorem Proceeds.of_sameBelow {s t u : State} (hst : s.SameBelow t) (hs : s.Active)
    (h : t.Proceeds u) : s.Proceeds u := by
  obtain ⟨top, top', below, hkind, hitems, hitems'⟩ := hst.items hs
  refine ⟨h.active, h.status.trans hst.status, h.turn.trans hst.turn, hst.choices ▸ h.choices, ?_⟩
  have hframes := h.frames
  rw [hitems'] at hframes
  rw [hitems]
  exact hframes.of_kind hkind

theorem Active.proceeds_dropFrame {s : State} (hs : s.Active) (test : FrameKind → Bool)
    (htop : s.topKind?.any test = true) (hroot : test .root = false) : s.Proceeds s.dropFrame := by
  refine ⟨hs.dropFrame test htop hroot, rfl, rfl, List.prefix_rfl, ?_⟩
  show Shift s.frames.items s.frames.items.tail
  cases hitems : s.frames.items with
  | nil => exact absurd hitems hs.nonempty
  | cons top below => exact .out

theorem Entered.proceeds {s t : State} {kind : FrameKind} (h : s.Entered kind t) (hs : s.Active)
    (hkind : kind.isFunction = false) : s.Proceeds t := by
  obtain ⟨frame, hframe, hitems⟩ := h.frames
  refine ⟨h.active, h.turn.status, h.turn.turn, h.turn.choices ▸ List.prefix_rfl, ?_⟩
  rw [hitems]
  cases hs' : s.frames.items with
  | nil => exact absurd hs' hs.nonempty
  | cons top below => exact .into rfl (hframe ▸ hkind)

/-- A plain divert that stops nothing moves the innermost frame, or ends a thread. -/
theorem Went.of_stopsAt {s t : State} {target : String} (h : s.Went target t)
    (hgo : s.stopsAt target = false) : s.SameBelow t ∨ s.inThread = true ∧ t = s.dropFrame := by
  cases h with
  | ended htarget _ => simp [stopsAt, htarget] at hgo
  | done hend htarget h =>
      have hin : s.inThread = true := by simpa [stopsAt, htarget, doneTarget, endTarget] using hgo
      rw [State.endFlow, if_pos hin] at h
      exact .inr ⟨hin, h⟩
  | moved _ _ h => exact .inl h

theorem Went.rests {s t : State} {target : String} (h : s.Went target t)
    (hstop : s.stopsAt target = true) : s.Rests t := by
  cases h with
  | ended _ h => exact ⟨s, List.prefix_rfl, .inr h⟩
  | done hend _ h =>
      have hin : s.inThread = false := by simp_all [stopsAt]
      rw [State.endFlow, hin] at h
      exact ⟨s, List.prefix_rfl, .inl h⟩
  | moved hend hdone _ => simp [stopsAt, hend, hdone] at hstop

theorem Went.proceeds {s t : State} {target : String} (h : s.Went target t) (hs : s.Active)
    (hgo : s.stopsAt target = false) : s.Proceeds t := by
  obtain h | ⟨hin, rfl⟩ := h.of_stopsAt hgo
  · exact h.proceeds hs
  · exact hs.proceeds_dropFrame FrameKind.isThread hin rfl

/-- Leaving a tunnel for a target. -/
theorem Went.proceeds_dropFrame {s t : State} {target : String} (h : s.dropFrame.Went target t)
    (hs : s.Active) (hin : s.inTunnel = true) (hgo : s.dropFrame.stopsAt target = false) :
    s.Proceeds t := by
  have hdrop := hs.dropFrame FrameKind.isTunnel hin rfl
  obtain ⟨active, status, turn, choices, _⟩ := h.proceeds hdrop hgo
  refine ⟨active, status, turn, choices, ?_⟩
  cases hitems : s.frames.items with
  | nil => exact absurd hitems hs.nonempty
  | cons top below =>
      have htop : top.kind.isTunnel = true := by
        simpa [inTunnel, topKind?, Stack.top?, hitems] using hin
      have hbelow : s.dropFrame.frames.items = below := congrArg List.tail hitems
      obtain h | ⟨_, rfl⟩ := h.of_stopsAt hgo
      · obtain ⟨next, next', rest, hkind, hnext, hnext'⟩ := h.items hdrop
        rw [hnext', ← hbelow, hnext]
        exact .across htop hkind
      · show Shift (top :: below) s.dropFrame.frames.items.tail
        rw [hbelow]
        cases below with
        | nil => exact absurd hbelow hdrop.nonempty
        | cons next rest => exact .past htop

theorem Diverted.proceeds {s t : State} {d : Divert} (h : s.Diverted d t) (hs : s.Active)
    (hgo : s.haltsAt (.divert d) = false) : s.Proceeds t := by
  cases h with
  | back _ hin _ h =>
      rw [h]
      exact hs.proceeds_dropFrame FrameKind.isTunnel hin rfl
  | onward hkind hin htarget h =>
      simp only [haltsAt, hkind, htarget, Option.any_some] at hgo
      exact h.proceeds_dropFrame hs hin hgo
  | tunnel _ h | thread _ h => exact h.proceeds hs rfl
  | went hkind h =>
      simp only [haltsAt, hkind] at hgo
      exact h.proceeds hs hgo

theorem Diverted.rests {s t : State} {d : Divert} (h : s.Diverted d t)
    (hstop : s.haltsAt (.divert d) = true) : s.Rests t := by
  cases h with
  | back hkind _ htarget _ => simp [haltsAt, hkind, htarget] at hstop
  | onward hkind _ htarget h =>
      simp only [haltsAt, hkind, htarget, Option.any_some] at hstop
      obtain ⟨u, hchoices, hu⟩ := h.rests hstop
      exact ⟨u, hchoices, hu⟩
  | tunnel hkind _ | thread hkind _ => simp [haltsAt, hkind] at hstop
  | went hkind h =>
      simp only [haltsAt, hkind] at hstop
      exact h.rests hstop

theorem Offering.proceeds {s t u : State} (h : s.Offering t) (htu : t.Proceeds u) :
    s.Proceeds u :=
  ⟨htu.active, htu.status.trans h.status_eq, htu.turn.trans h.turn_eq, h.offers.trans htu.choices,
    h.frames_eq ▸ htu.frames⟩

theorem Ran.proceeds {s t : State} {node : Node} (h : s.Ran node t) (hs : s.Active)
    (hout : s.inFunction = false) (hgo : s.haltsAt node = false) : s.Proceeds t := by
  cases h with
  | on _ h => exact h.proceeds hs
  | back _ hin _ =>
      rw [hout] at hin
      cases hin
  | diverted hnode _ h => exact h.proceeds hs (hnode ▸ hgo)
  | offered hnode _ h =>
      rw [hnode] at hgo
      cases h with
      | way hin hoffers h =>
          rw [h]
          rw [← inThread_congr hoffers.frames_eq] at hin
          exact hoffers.proceeds (hoffers.toActive.proceeds_dropFrame FrameKind.isThread hin rfl)
      | rest hin _ _ => simp [haltsAt, hin] at hgo

theorem Ran.rests {s t : State} {node : Node} (h : s.Ran node t) (hout : s.inFunction = false)
    (hstop : s.haltsAt node = true) : s.Rests t := by
  cases h with
  | on hnode _ =>
      cases node with
      | divert _ | choice _ _ => cases hnode
      | _ => cases hstop
  | back _ hin _ =>
      rw [hout] at hin
      cases hin
  | diverted hnode _ h => exact h.rests (hnode ▸ hstop)
  | offered hnode _ h =>
      rw [hnode] at hstop
      cases h with
      | way hin _ _ => simp [haltsAt, hin] at hstop
      | rest _ hoffers h => exact ⟨_, hoffers.offers, .inl h⟩

/-- A step that does not halt proceeds. -/
theorem Stepped.proceeds {s t : State} (h : s.Stepped t) (hs : s.Active)
    (hout : s.inFunction = false) (hgo : s.halts = false) : s.Proceeds t := by
  cases h with
  | idle htop _ =>
      rw [Stack.top?, List.head?_eq_none_iff] at htop
      exact absurd htop hs.nonempty
  | @finished frame htop hnext h =>
      rw [halts, hnext, topKind?, htop] at hgo
      rw [inFunction, topKind?, htop] at hout
      rw [h, State.finishFrame, topKind?, htop]
      have hdrop (test : FrameKind → Bool) := hs.proceeds_dropFrame test
      rw [topKind?, htop] at hdrop
      cases hkind : frame.kind with
      | root => simp [hkind] at hgo
      | function depth => simp [hkind, FrameKind.isFunction] at hout
      | tunnel depth => simpa [hkind] using hdrop FrameKind.isTunnel (by simp [hkind]; rfl) rfl
      | thread depth => simpa [hkind] using hdrop FrameKind.isThread (by simp [hkind]; rfl) rfl
  | passed _ _ _ h => exact h.proceeds hs
  | @ran cursor frame node u _ hnext hnode _ hon h =>
      have hgo : s.haltsAt node = false := by simpa [halts, hnext, hnode] using hgo
      rw [← haltsAt_of_kinds hon.kinds] at hgo
      exact (h.proceeds (hon.active hs) (hon.inFunction_eq.trans hout) hgo).of_sameBelow hon hs

/-- A step that halts brings everything to rest. -/
theorem Stepped.rests {s t : State} (h : s.Stepped t) (hout : s.inFunction = false)
    (hstop : s.halts = true) : s.Rests t := by
  cases h with
  | idle _ h => exact ⟨s, List.prefix_rfl, .inl h⟩
  | finished htop hnext h =>
      rw [halts, hnext, topKind?, htop] at hstop
      rw [h, State.finishFrame, topKind?, htop]
      have hroot : (some _ : Option FrameKind) = some .root := congrArg some (by simpa using hstop)
      rw [Option.map_some, hroot]
      exact ⟨s.dropFrame, List.prefix_rfl, .inl rfl⟩
  | passed _ hnext hnode _ => simp [halts, hnext, hnode] at hstop
  | @ran cursor frame node u _ hnext hnode _ hon h =>
      have hstop : s.haltsAt node = true := by simpa [halts, hnext, hnode] using hstop
      rw [← haltsAt_of_kinds hon.kinds] at hstop
      obtain ⟨v, hchoices, hv⟩ := h.rests (hon.inFunction_eq.trans hout) hstop
      exact ⟨v, hon.choices ▸ hchoices, hv⟩

/-- A divert to a thread puts a frame on the others, after the innermost one of them has gone past
the divert. -/
theorem Stepped.spawned {s t : State} (h : s.Stepped t) {cursor : Cursor} {frame : Frame}
    {d : Divert} (hnext : s.next? = some (cursor, frame))
    (hnode : cursor.peek? = some (.divert d)) (hkind : d.kind = .thread) :
    t.Active ∧ t.inFunction = false ∧ s.SameTurn t ∧ ∃ thread,
      thread.kind = .thread s.frames.items.tail.length ∧
        t.frames.items = thread :: frame :: s.frames.items.tail := by
  cases h with
  | idle htop _ =>
      rw [next?, htop] at hnext
      cases hnext
  | finished _ hnone _ =>
      rw [hnone] at hnext
      cases hnext
  | passed _ hnext' hnone _ =>
      cases hnext.symm.trans hnext'
      rw [hnone] at hnode
      cases hnode
  | @ran _ _ node u hactive hnext' hnode' hpast hon h =>
      cases hnext.symm.trans hnext'
      cases hnode.symm.trans hnode'
      have hitems : u.frames.items = frame :: s.frames.items.tail := by
        rw [hpast]
        show s.frames.items.modifyHead _ = _
        cases hitems : s.frames.items with
        | nil => exact absurd hitems hactive.nonempty
        | cons top below => rfl
      cases h with
      | on hnode _ | back hnode _ _ => cases hnode
      | diverted hd hout h =>
          cases hd
          cases h with
          | back h _ _ _ | onward h _ _ _ | tunnel h _ | went h _ =>
              rw [hkind] at h
              cases h
          | thread _ h =>
              obtain ⟨thread, hthread, hframes⟩ := h.frames
              refine ⟨h.active, ?_, hon.toSameTurn.trans h.turn, thread, ?_, hitems ▸ hframes⟩
              · rw [inFunction_cons hframes, hthread]
                rfl
              · rw [hthread, u.frames.size_eq, hitems, List.length_cons, Nat.add_sub_cancel]
      | offered hnode _ _ => cases hnode

end State

namespace Story

variable {story : Story}

/-! ## Strands -/

/-- Steps one after another, none of which halts, as long as there are more frames than a given
number. -/
inductive Strand (story : Story) (depth : Nat) (s : State) : State → Prop where
  | refl : Strand story depth s s
  | step {t u : State} (h : Strand story depth s t) (hsize : depth < t.frames.size)
      (hgo : t.halts = false) (hstep : story.step story.callFunction t = .ok () u) :
      Strand story depth s u

/-- Along a strand outside of functions the flow stays active and no choice is given up. -/
theorem Strand.goes_on {depth : Nat} {s t : State} (h : story.Strand depth s t) (hs : s.Active)
    (hout : s.inFunction = false) :
    t.Active ∧ t.inFunction = false ∧ t.status = s.status ∧ t.turn = s.turn ∧
      s.choices <+: t.choices := by
  induction h with
  | refl => exact ⟨hs, hout, rfl, rfl, List.prefix_rfl⟩
  | step _ _ hgo hstep ih =>
      obtain ⟨hactive, hout, hstatus, hturn, hchoices⟩ := ih
      have hproceeds := (stepped_of_step hactive.toAligned hstep).proceeds hactive hout hgo
      refine ⟨hproceeds.active, ?_, hproceeds.status.trans hstatus, hproceeds.turn.trans hturn,
        hchoices.trans hproceeds.choices⟩
      refine State.inFunction_of_forall ?_
      exact hproceeds.frames.isFunction_eq_false (hactive.isFunction_eq_false hout)

/-- Along a strand above the frames of the flow that spawned a thread those frames stay as they
are. -/
theorem Strand.atop {kind : FrameKind} {base : List Frame} {s t : State}
    (h : story.Strand base.length s t) (hs : s.Active) (hout : s.inFunction = false)
    (hkind : kind.isThread = true) (hatop : Shift.Atop kind base s.frames.items) :
    Shift.Atop kind base t.frames.items := by
  induction h with
  | refl => exact hatop
  | step h hsize hgo hstep ih =>
      obtain ⟨hactive, hout, _⟩ := h.goes_on hs hout
      have hproceeds := (stepped_of_step hactive.toAligned hstep).proceeds hactive hout hgo
      exact hproceeds.frames.atop hkind ih (Stack.size_eq _ ▸ hsize)

/-- In every state that a story can come to, a divert to a thread puts one frame on those of the
flow that spawns it.  However the thread goes on, short of a step that halts, those frames lie
below it unchanged, and when the frames of the thread are gone they are what is left.  Until some
step halts the flow is running, and the choices gathered before are first in the list; and a step
that halts brings everything to rest, with these choices and those that it offers itself. -/
theorem spawner_goes_on_of_reachable {s t : State} {cursor : Cursor} {frame : Frame} {d : Divert}
    (h : story.Reachable s) (hrunning : s.status = .running)
    (hnext : s.next? = some (cursor, frame)) (hnode : cursor.peek? = some (.divert d))
    (hkind : d.kind = .thread) (hstep : story.step story.callFunction s = .ok () t) :
    let base := frame :: s.frames.items.tail
    (∃ thread, thread.kind = .thread (base.length - 1) ∧ t.frames.items = thread :: base) ∧
      (∀ u, story.Strand base.length t u →
        u.frames.items = base ∨ ∃ above thread, thread.kind = .thread (base.length - 1) ∧
          u.frames.items = above ++ thread :: base) ∧
      ∀ depth u, story.Strand depth t u →
        u.status = .running ∧ u.turn = s.turn ∧ s.choices <+: u.choices ∧
          ∀ v, u.halts = true → story.step story.callFunction u = .ok () v → u.Rests v := by
  intro base
  obtain ⟨hactive, hout, hturn, hitems⟩ :=
    (stepped_of_step h.aligned hstep).spawned hnext hnode hkind
  refine ⟨hitems, ?_, ?_⟩
  · obtain ⟨thread, hthread, hitems⟩ := hitems
    intro u hu
    exact hu.atop hactive hout rfl (.inr ⟨[], thread, hthread, hitems⟩)
  · intro depth u hu
    obtain ⟨huactive, huout, hstatus, huturn, hchoices⟩ := hu.goes_on hactive hout
    refine ⟨hstatus.trans (hturn.status.trans hrunning), huturn.trans hturn.turn,
      hturn.choices ▸ hchoices, fun v hhalts hv => ?_⟩
    exact (stepped_of_step huactive.toAligned hv).rests huout hhalts

/-- Whether a strand goes on from a state. -/
def goesOn (story : Story) (depth : Nat) (s : State) : Bool :=
  depth < s.frames.size && !s.halts && ((story.step story.callFunction).answer? s).isSome

theorem step_of_goesOn {depth : Nat} {s : State} (h : story.goesOn depth s = true) :
    story.step story.callFunction s = .ok () ((story.step story.callFunction).after s) := by
  obtain ⟨_, hanswer⟩ := Option.isSome_iff_exists.mp (Bool.and_eq_true_iff.mp h).2
  exact Flow.of_answer?_eq_some hanswer

theorem Strand.after {depth : Nat} {s t : State} (h : story.Strand depth s t)
    (hgo : story.goesOn depth t = true) :
    story.Strand depth s ((story.step story.callFunction).after t) := by
  have hstep := step_of_goesOn hgo
  simp only [goesOn, Bool.and_eq_true, decide_eq_true_eq, Bool.not_eq_true'] at hgo
  exact h.step hgo.1.1 hgo.1.2 hstep

/-- A story with a thread that enters a tunnel and comes back before it offers a choice. -/
def duet : Story where
  script :=
    { knots :=
        [{ name := "start", id := ⟨1⟩, parameters := []
           objects := [.divert { kind := .thread, target := some "side" },
             .choice ⟨2⟩ [⟨[.text "Main"], [], false, [], false, false⟩]]
           stitches := [], gathers := [], isFunction := false },
         { name := "side", id := ⟨3⟩, parameters := []
           objects := [.divert { kind := .tunnel, target := some "inner" },
             .choice ⟨4⟩ [⟨[.text "Side"], [], false, [], false, false⟩]]
           stitches := [], gathers := [], isFunction := false },
         { name := "inner", id := ⟨5⟩, parameters := []
           objects := [.divert { kind := .tunnelReturn, target := none }]
           stitches := [], gathers := [], isFunction := false }]
      sound := rfl }

/-- The thread gives way after its choice, and the choice of the main flow comes behind it. -/
theorem spawner_goes_on_of_duet :
    ∃ s t u v, duet.Reachable s ∧ duet.step duet.callFunction s = .ok () t ∧
      t.frames.items.length = 2 ∧ duet.Strand 1 t u ∧ u.status = .running ∧
      u.frames.items = t.frames.items.tail ∧ u.choices.map (·.text) = ["Side"] ∧
      duet.step duet.callFunction u = .ok () v ∧ u.Rests v ∧
      v.choices.map (·.text) = ["Side", "Main"] := by
  have hrun : (duet.start.toOption.map fun s =>
      let go := (duet.step duet.callFunction).after
      let t := go s
      let u := go (go (go t))
      ([decide (s.node? = some (.divert { kind := .thread, target := some "side" })),
          decide (s.status = .running), duet.goesOn 0 s, duet.goesOn 1 t, duet.goesOn 1 (go t),
          duet.goesOn 1 (go (go t)), u.halts,
          ((duet.step duet.callFunction).answer? u).isSome],
        [s.frames.items.length, t.frames.items.length, u.frames.items.length],
        [u.choices.map (·.text), (go u).choices.map (·.text)])) =
      some ([true, true, true, true, true, true, true, true], [1, 2, 1],
        [["Side"], ["Side", "Main"]]) := by decide +kernel
  obtain ⟨s, hstart, hrun⟩ := exists_start hrun
  simp only [Prod.mk.injEq, List.cons.injEq, and_true, decide_eq_true_eq] at hrun
  obtain ⟨⟨hnode, hrunning, hfirst, hgo, hgo', hgo'', hhalts, hlast⟩, ⟨hs, ht, hu⟩, hside,
    hmain⟩ := hrun
  obtain ⟨⟨cursor, frame⟩, hnext, hnode⟩ := Option.bind_eq_some_iff.mp hnode
  obtain ⟨_, hlast⟩ := Option.isSome_iff_exists.mp hlast
  have hv := Flow.of_answer?_eq_some hlast
  have hbase : (frame :: s.frames.items.tail).length = 1 := by
    rw [List.length_cons, List.length_tail, hs]
  have hreach := Reachable.start hstart
  have hstep := step_of_goesOn hfirst
  have hstrand := ((Strand.refl.after hgo).after hgo').after hgo''
  obtain ⟨⟨thread, _, hitems⟩, hatop, hall⟩ :=
    spawner_goes_on_of_reachable hreach hrunning hnext hnode rfl hstep
  obtain ⟨hstatus, _, _, hrests⟩ := hall 1 _ hstrand
  refine ⟨s, _, _, _, hreach, hstep, ht, hstrand, hstatus, ?_, hside, hv, hrests _ hhalts hv,
    hmain⟩
  rw [hitems, List.tail_cons]
  obtain hgone | ⟨above, thread', _, hthere⟩ := hatop _ (hbase ▸ hstrand)
  · exact hgone
  · rw [hthere, List.length_append, List.length_cons, hbase] at hu
    omega

/-- A story with a thread that enters a tunnel, and is done there. -/
def lost : Story where
  script :=
    { knots :=
        [{ name := "start", id := ⟨1⟩, parameters := []
           objects := [.divert { kind := .thread, target := some "side" }, .text "After."]
           stitches := [], gathers := [], isFunction := false },
         { name := "side", id := ⟨2⟩, parameters := []
           objects := [.divert { kind := .tunnel, target := some "inner" }]
           stitches := [], gathers := [], isFunction := false },
         { name := "inner", id := ⟨3⟩, parameters := []
           objects := [.divert { kind := .goto, target := some doneTarget }]
           stitches := [], gathers := [], isFunction := false }]
      sound := rfl }

/-- The thread is done, but so is the main flow: the story is over, and the text behind the thread
is never printed. -/
theorem spawner_goes_on_of_lost :
    ∃ s t u v, lost.Reachable s ∧ lost.step lost.callFunction s = .ok () t ∧
      lost.Strand 1 t u ∧ u.frames.items.length = 3 ∧
      u.node? = some (.divert { kind := .goto, target := some doneTarget }) ∧
      lost.step lost.callFunction u = .ok () v ∧ v.frames.items.length = 0 ∧ v.status = .ended ∧
      v.output.lines.length = 0 := by
  have hrun : (lost.start.toOption.map fun s =>
      let go := (lost.step lost.callFunction).after
      let u := go (go s)
      ([lost.goesOn 0 s, lost.goesOn 1 (go s), ((lost.step lost.callFunction).answer? u).isSome],
        u.frames.items.length, u.node?, (go u).frames.items.length, (go u).status,
        (go u).output.lines.length)) =
      some ([true, true, true], 3, some (.divert { kind := .goto, target := some doneTarget }), 0,
        .ended, 0) := by decide +kernel
  obtain ⟨s, hstart, hrun⟩ := exists_start hrun
  simp only [Prod.mk.injEq, List.cons.injEq, and_true] at hrun
  obtain ⟨⟨hfirst, hgo, hlast⟩, hu, hnode, hv, hended, hlines⟩ := hrun
  obtain ⟨_, hlast⟩ := Option.isSome_iff_exists.mp hlast
  exact ⟨s, _, _, _, .start hstart, step_of_goesOn hfirst, Strand.refl.after hgo, hu, hnode,
    Flow.of_answer?_eq_some hlast, hv, hended, hlines⟩

end Story

end Skein
