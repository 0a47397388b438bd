import Skein.Proofs.Expr.Scopes
import Skein.Proofs.Story.Frames

set_option autoImplicit false

/-!
# Story: frames and scopes in line

Every frame has its scope, the frames lie on one another as they should, and every choice on
offer has frames to go on with.  This file says what the operations on the state do to that.

Two states are compared in three ways.  In `SameFlow` nothing moved; in `SameBelow` only the
innermost frame did, within itself; in `LeftFrame` it is gone.  All three leave the scopes
around the innermost one with the names they bind, though perhaps with other values.
-/

namespace Skein

@[simp] theorem Stack.items_empty {α : Type} : (∅ : Stack α).items = [] := rfl

theorem Stack.eq_of_items {α : Type} {a b : Stack α} (h : a.items = b.items) : a = b := by
  obtain ⟨items, size, hsize⟩ := a
  obtain ⟨items', size', hsize'⟩ := b
  obtain rfl : items = items' := h
  obtain rfl : size = size' := hsize.trans hsize'.symm
  rfl

/-! ## Frames, scopes and choices -/

/-- The kinds of the frames that a choice goes on with, innermost first. -/
def PendingChoice.kinds (choice : PendingChoice) : List FrameKind :=
  choice.resume.map (·.1.kind)

namespace State

/-- The kinds of the frames, innermost first. -/
def kinds (s : State) : List FrameKind := s.frames.items.map (·.kind)

/-- Every frame has its scope and lies where it should, and every choice can be gone on
from. -/
structure Aligned (s : State) : Prop where
  scopes : s.store.depth = max 1 s.frames.items.length
  frames : isStacked s.kinds = true
  choices : ∀ choice ∈ s.choices, isResumable choice.kinds = true

/-- The state is in line and some flow is active. -/
structure Active (s : State) : Prop extends Aligned s where
  nonempty : s.frames.items ≠ []

/-- The status says what the flow is like: while it runs there is a frame, at a choice there is
none and some choice is shown, and at the end there is neither a frame nor a choice. -/
structure Posed (s : State) : Prop extends Aligned s where
  running : s.status = .running → s.frames.items ≠ []
  atChoice : s.status = .atChoice → s.frames.items = [] ∧ s.visibleChoices ≠ []
  ended : s.status = .ended → s.frames.items = [] ∧ s.choices = []

theorem Active.posed {s : State} (h : s.Active) (hrunning : s.status = .running) : s.Posed where
  toAligned := h.toAligned
  running _ := h.nonempty
  atChoice hstatus := by
    rw [hrunning] at hstatus
    cases hstatus
  ended hstatus := by
    rw [hrunning] at hstatus
    cases hstatus

theorem Aligned.congr {s t : State} (h : s.Aligned) (hkinds : t.kinds = s.kinds)
    (hdepth : t.store.depth = s.store.depth) (hchoices : t.choices = s.choices) : t.Aligned where
  scopes := by
    have hlength := congrArg List.length hkinds
    rw [kinds, kinds, List.length_map, List.length_map] at hlength
    rw [hdepth, hlength, h.scopes]
  frames := by rw [hkinds]; exact h.frames
  choices := by rw [hchoices]; exact h.choices

theorem Posed.congr {s t : State} (h : s.Posed) (hframes : t.frames = s.frames)
    (hdepth : t.store.depth = s.store.depth) (hchoices : t.choices = s.choices)
    (hstatus : t.status = s.status) : t.Posed where
  toAligned := h.toAligned.congr (by rw [kinds, kinds, hframes]) hdepth hchoices
  running := by
    rw [hstatus, hframes]
    exact h.running
  atChoice := by
    rw [hstatus, hframes, visibleChoices, hchoices]
    exact h.atChoice
  ended := by
    rw [hstatus, hframes, hchoices]
    exact h.ended

theorem Active.of_aligned {s : State} (h : s.Aligned) {frame : Frame}
    (htop : s.frames.top? = some frame) : s.Active where
  toAligned := h
  nonempty := by
    intro hnil
    rw [Stack.top?, hnil] at htop
    cases htop

theorem inFunction_cons {s : State} {frame : Frame} {below : List Frame}
    (h : s.frames.items = frame :: below) : s.inFunction = frame.kind.isFunction := by
  simp [inFunction, topKind?, Stack.top?, h]

/-- Only the main flow lies on no other frame. -/
theorem Active.tail_ne_nil {s : State} (h : s.Active) (test : FrameKind → Bool)
    (htop : s.topKind?.any test = true) (hroot : test .root = false) :
    s.frames.items.tail ≠ [] := by
  have hstacked := h.frames
  rw [kinds] at hstacked
  rw [topKind?, Stack.top?] at htop
  cases hitems : s.frames.items with
  | nil => exact absurd hitems h.nonempty
  | cons frame below =>
      intro hnil
      obtain rfl : below = [] := hnil
      rw [hitems] at hstacked htop
      have hkind : frame.kind = .root := by simpa [isStacked] using hstacked
      have htest : test frame.kind = true := by simpa using htop
      rw [hkind, hroot] at htest
      cases htest

/-- Outside of functions no frame is a function. -/
theorem Active.isFunction_eq_false {s : State} (h : s.Active) (hout : s.inFunction = false) :
    ∀ frame ∈ s.frames.items, frame.kind.isFunction = false := by
  intro frame hframe
  have hstacked := h.frames
  rw [kinds] at hstacked
  cases hitems : s.frames.items with
  | nil => exact absurd hitems h.nonempty
  | cons top below =>
      rw [inFunction_cons hitems] at hout
      rw [hitems] at hstacked hframe
      exact isFunction_of_isStacked hstacked hout _ (List.mem_map_of_mem hframe)

/-! ## Entering and leaving frames -/

theorem Active.pushFrame {s : State} (h : s.Active) {frame : Frame}
    (hfrom : frame.kind.enteredFrom? = some (s.frames.size - 1))
    (hfunction : s.inFunction = true → frame.kind.isFunction = true) :
    (s.pushFrame frame).Active where
  scopes := by
    have hempty : s.frames.isEmpty = false := by simpa [Stack.isEmpty] using h.nonempty
    have hpos := List.length_pos_iff.mpr h.nonempty
    have hdepth := h.scopes
    simp only [State.pushFrame, hempty, Stack.push, List.length_cons, Bool.false_eq_true,
      if_false, Store.depth_pushScope]
    omega
  frames := by
    refine isStacked_push (by simpa using h.nonempty) h.frames ?_ ?_
    · rw [hfrom, s.frames.size_eq, List.length_map]
    · intro below hbelow hin
      refine hfunction ?_
      simp only [List.head?_map] at hbelow
      simp only [inFunction, topKind?, Stack.top?]
      rw [hbelow]
      exact hin
  choices := h.choices
  nonempty := by simp [State.pushFrame, Stack.push]

theorem active_pushFrame_root {s : State} {frame : Frame} (hroot : frame.kind = .root)
    (hframes : s.frames = ∅) (hdepth : s.store.depth = 1) (hchoices : s.choices = []) :
    (s.pushFrame frame).Active where
  scopes := by simpa [State.pushFrame, hframes, Stack.isEmpty, Stack.push] using hdepth
  frames := by simp [State.pushFrame, kinds, hframes, Stack.push, isStacked, hroot]
  choices := by simp [State.pushFrame, hchoices]
  nonempty := by simp [State.pushFrame, Stack.push]

theorem Aligned.dropFrame {s : State} (h : s.Aligned) : s.dropFrame.Aligned where
  scopes := by
    have hdepth := h.scopes
    have hlength := s.frames.items.length_tail
    by_cases hempty : s.frames.items.tail = []
    · rw [hempty, List.length_nil] at hlength
      simp only [State.dropFrame, Stack.pop, Stack.isEmpty, hempty, List.isEmpty_nil, if_true,
        Store.depth_resetScope, List.length_nil]
      omega
    · have hfull : s.frames.items.tail.isEmpty = false := by simpa using hempty
      simp only [State.dropFrame, Stack.pop, Stack.isEmpty, hfull, Bool.false_eq_true, if_false,
        Store.depth_popScope]
      omega
  frames := by
    have hstacked := h.frames
    simp only [State.dropFrame, kinds, Stack.pop] at hstacked ⊢
    cases hitems : s.frames.items with
    | nil => rfl
    | cons frame below =>
        rw [hitems] at hstacked
        exact isStacked_tail hstacked
  choices := h.choices

/-! ## Two states of one flow -/

/-- Nothing that a player is offered or has done changes. -/
structure SameTurn (s t : State) : Prop where
  choices : t.choices = s.choices
  status : t.status = s.status
  turn : t.turn = s.turn
  taken : t.taken = s.taken

/-- Only the innermost frame moves, within itself. -/
structure SameBelow (s t : State) : Prop extends SameTurn s t where
  kinds : t.kinds = s.kinds
  below : t.frames.items.tail = s.frames.items.tail
  shape : t.store.outerShape = s.store.outerShape

/-- No frame moves, and no value waits to be taken that did not before. -/
structure SameFlow (s t : State) : Prop extends SameTurn s t where
  frames : t.frames = s.frames
  shape : t.store.outerShape = s.store.outerShape
  returned : t.returned = s.returned

/-- The innermost frame is gone with its scope. -/
structure LeftFrame (s t : State) : Prop extends SameTurn s t where
  frames : t.frames.items = s.frames.items.tail
  shape : t.store.shape = s.store.outerShape

theorem SameTurn.refl (s : State) : SameTurn s s := ⟨rfl, rfl, rfl, rfl⟩

theorem SameTurn.trans {s t u : State} (hst : SameTurn s t) (htu : SameTurn t u) :
    SameTurn s u :=
  ⟨htu.choices.trans hst.choices, htu.status.trans hst.status, htu.turn.trans hst.turn,
    htu.taken.trans hst.taken⟩

theorem SameFlow.refl (s : State) : SameFlow s s := ⟨.refl s, rfl, rfl, rfl⟩

theorem SameFlow.trans {s t u : State} (hst : SameFlow s t) (htu : SameFlow t u) :
    SameFlow s u :=
  ⟨hst.toSameTurn.trans htu.toSameTurn, htu.frames.trans hst.frames, htu.shape.trans hst.shape,
    htu.returned.trans hst.returned⟩

theorem SameFlow.sameBelow {s t : State} (h : SameFlow s t) : SameBelow s t where
  toSameTurn := h.toSameTurn
  kinds := by rw [State.kinds, h.frames, State.kinds]
  below := by rw [h.frames]
  shape := h.shape

theorem SameBelow.trans {s t u : State} (hst : SameBelow s t) (htu : SameBelow t u) :
    SameBelow s u :=
  ⟨hst.toSameTurn.trans htu.toSameTurn, htu.kinds.trans hst.kinds, htu.below.trans hst.below,
    htu.shape.trans hst.shape⟩

theorem SameBelow.aligned {s t : State} (hst : SameBelow s t) (h : s.Aligned) : t.Aligned :=
  h.congr hst.kinds (by rw [Store.depth_eq, Store.depth_eq, hst.shape]) hst.choices

theorem SameBelow.active {s t : State} (hst : SameBelow s t) (h : s.Active) : t.Active where
  toAligned := hst.aligned h.toAligned
  nonempty := by
    have hkinds := hst.kinds
    intro hnil
    rw [State.kinds, State.kinds, hnil, List.map_nil, eq_comm, List.map_eq_nil_iff] at hkinds
    exact h.nonempty hkinds

theorem SameFlow.active {s t : State} (hst : SameFlow s t) (h : s.Active) : t.Active :=
  hst.sameBelow.active h

theorem SameBelow.inFunction_eq {s t : State} (hst : SameBelow s t) :
    t.inFunction = s.inFunction := by
  have hkinds := congrArg List.head? hst.kinds
  rw [State.kinds, State.kinds, List.head?_map, List.head?_map] at hkinds
  rw [inFunction, inFunction, topKind?, topKind?, Stack.top?, Stack.top?, hkinds]

theorem SameBelow.leftFrame {s t u : State} (hst : SameBelow s t) (htu : LeftFrame t u) :
    LeftFrame s u :=
  ⟨hst.toSameTurn.trans htu.toSameTurn, htu.frames.trans hst.below, htu.shape.trans hst.shape⟩

theorem kinds_mapTop {s : State} {f : Frame → Frame}
    (hf : ∀ frame ∈ s.frames.top?, (f frame).kind = frame.kind) :
    (s.frames.mapTop f).items.map (·.kind) = s.kinds := by
  show (s.frames.items.modifyHead f).map (·.kind) = s.frames.items.map (·.kind)
  cases hitems : s.frames.items with
  | nil => rfl
  | cons frame below =>
      have hkind := hf frame (by rw [Stack.top?, hitems]; rfl)
      simp [List.modifyHead, hkind]

theorem sameBelow_mapTop {s : State} {f : Frame → Frame}
    (hf : ∀ frame ∈ s.frames.top?, (f frame).kind = frame.kind) :
    SameBelow s { s with frames := s.frames.mapTop f } where
  toSameTurn := ⟨rfl, rfl, rfl, rfl⟩
  kinds := kinds_mapTop hf
  below := by
    show (s.frames.items.modifyHead f).tail = _
    cases s.frames.items with
    | nil => rfl
    | cons frame below => rfl
  shape := rfl

/-! ## Going on from a choice -/

/-- The flow that a choice was offered in has a frame and a scope for each frame kept. -/
theorem active_takeChoice {s : State} {choice : PendingChoice}
    (hkinds : isResumable choice.kinds = true) : (s.takeChoice choice).Active where
  scopes := by
    simp [takeChoice, Store.depth_withScopes, Stack.ofList]
  frames := by
    have hstacked := isStacked_of_isResumable hkinds
    rw [PendingChoice.kinds] at hstacked
    simpa [takeChoice, kinds, Stack.ofList, Function.comp_def] using hstacked
  choices := by simp [takeChoice]
  nonempty := by
    intro hnil
    have hresume : choice.resume = [] := by simpa [takeChoice, Stack.ofList] using hnil
    rw [PendingChoice.kinds, hresume] at hkinds
    cases hkinds

theorem kind_pushContent (frame : Frame) (content : Content) :
    (frame.pushContent content).kind = frame.kind := by
  unfold Frame.pushContent
  split <;> rfl

theorem sameBelow_pushContent (s : State) (content : Content) :
    SameBelow s (s.pushContent content) :=
  sameBelow_mapTop fun frame _ => kind_pushContent frame content

theorem sameBelow_echo (s : State) (choice : PendingChoice) : SameBelow s (s.echo choice) := by
  unfold State.echo
  split
  · exact (SameFlow.refl s).sameBelow
  · exact ⟨⟨rfl, rfl, rfl, rfl⟩, rfl, rfl, rfl⟩

theorem posed_choose {s : State} {choice : PendingChoice}
    (hkinds : isResumable choice.kinds = true) : (s.choose choice).Posed := by
  have hecho := sameBelow_echo (s.takeChoice choice) choice
  have hbelow := hecho.trans (sameBelow_pushContent _ choice.result)
  exact (hbelow.active (active_takeChoice hkinds)).posed hbelow.status

theorem posed_fallBack {s : State} {choice : PendingChoice}
    (hkinds : isResumable choice.kinds = true) : (s.fallBack choice).Posed := by
  have hbelow := sameBelow_pushContent (s.takeChoice choice) choice.result
  exact (hbelow.active (active_takeChoice hkinds)).posed hbelow.status

/-! ## Coming to rest -/

theorem aligned_clearFlow {s : State}
    (hchoices : ∀ choice ∈ s.choices, isResumable choice.kinds = true) : s.clearFlow.Aligned where
  scopes := Store.depth_withScopes _ _
  frames := rfl
  choices := hchoices

theorem posed_finish (s : State) : s.finish.Posed where
  scopes := Store.depth_withScopes _ _
  frames := rfl
  choices := by simp [finish]
  running := nofun
  atChoice := nofun
  ended _ := ⟨rfl, rfl⟩

theorem posed_rest {s : State}
    (hchoices : ∀ choice ∈ s.choices, isResumable choice.kinds = true) : s.rest.Posed := by
  have hclear := aligned_clearFlow hchoices
  simp only [rest]
  split
  · split
    · next choice hhead => exact posed_fallBack (hclear.choices _ (List.mem_of_head? hhead))
    · next hhead =>
        refine ⟨hclear.congr rfl rfl rfl, nofun, nofun, fun _ => ⟨rfl, ?_⟩⟩
        exact List.head?_eq_none_iff.mp hhead
  · next hshown =>
      refine ⟨hclear.congr rfl rfl rfl, nofun, fun _ => ⟨rfl, ?_⟩, nofun⟩
      intro hnil
      exact hshown (List.isEmpty_iff.mpr hnil)

/-- The flow goes on with the status it had, or the status says what has become of it. -/
inductive Arrived (s t : State) : Prop where
  | active (h : t.Active) (hstatus : t.status = s.status)
  | posed (h : t.Posed)

theorem Arrived.aligned {s t : State} (h : s.Arrived t) : t.Aligned := by
  cases h with
  | active h _ => exact h.toAligned
  | posed h => exact h.toAligned

theorem Arrived.of_status {s t u : State} (h : t.Arrived u) (hstatus : t.status = s.status) :
    s.Arrived u := by
  cases h with
  | active h hsame => exact .active h (hsame.trans hstatus)
  | posed h => exact .posed h

theorem Arrived.of_running {s t : State} (h : s.Arrived t) (hrunning : s.status = .running) :
    t.Posed := by
  cases h with
  | active h hstatus => exact h.posed (hstatus.trans hrunning)
  | posed h => exact h

/-- Below any frame but the main flow there is another one. -/
theorem Active.dropFrame {s : State} (h : s.Active) (test : FrameKind → Bool)
    (htop : s.topKind?.any test = true) (hroot : test .root = false) : s.dropFrame.Active :=
  ⟨h.toAligned.dropFrame, h.tail_ne_nil test htop hroot⟩

theorem Active.endFlow {s : State} (h : s.Active) : s.Arrived s.endFlow := by
  unfold State.endFlow
  split
  · next hthread => exact .active (h.dropFrame FrameKind.isThread hthread rfl) rfl
  · exact .posed (posed_rest h.choices)

theorem Active.finishFrame {s : State} (h : s.Active) : s.Arrived s.finishFrame := by
  have hdrop (kind : FrameKind) (htop : s.topKind? = some kind) (hroot : kind ≠ .root) :
      s.dropFrame.Active := by
    refine h.dropFrame (· ≠ .root) ?_ (by simp)
    rw [htop]
    simpa using hroot
  simp only [State.finishFrame]
  split
  · exact .posed (posed_rest h.toAligned.dropFrame.choices)
  · next caller htop =>
      have hactive := hdrop _ htop (by simp)
      exact .active ⟨hactive.toAligned.congr rfl rfl rfl, hactive.nonempty⟩ rfl
  · next hroot _ =>
      cases htop : s.topKind? with
      | none =>
          rw [topKind?, Option.map_eq_none_iff, Stack.top?, List.head?_eq_none_iff] at htop
          exact absurd htop h.nonempty
      | some kind => exact .active (hdrop kind htop fun hkind => hroot (hkind ▸ htop)) rfl

/-! ## Inside a function -/

/-- A function gives its frame and its scope back, and touches nothing else. -/
theorem Active.leftFrame_dropFrame {s : State} (h : s.Active) (hin : s.inFunction = true) :
    LeftFrame s s.dropFrame where
  toSameTurn := ⟨rfl, rfl, rfl, rfl⟩
  frames := rfl
  shape := by
    have htail := h.tail_ne_nil FrameKind.isFunction hin rfl
    have hpop : s.frames.pop.isEmpty = false := by simpa [Stack.pop, Stack.isEmpty] using htail
    have hpos := List.length_pos_iff.mpr htail
    have hdepth := h.scopes
    rw [Store.depth_eq] at hdepth
    rw [List.length_tail] at hpos
    have houter : s.store.outerShape ≠ [] := by
      intro hnil
      rw [hnil, List.length_nil] at hdepth
      omega
    simp only [State.dropFrame, hpop, Bool.false_eq_true, if_false]
    exact Store.shape_popScope houter

theorem active_of_inFunction {s : State} (h : s.Aligned) (hin : s.inFunction = true) :
    s.Active where
  toAligned := h
  nonempty := by
    intro hnil
    rw [inFunction, topKind?, Stack.top?, hnil] at hin
    cases hin

theorem LeftFrame.withReturned {s t : State} (h : LeftFrame s t) (value : Option (Option Value)) :
    LeftFrame s { t with returned := value } :=
  ⟨⟨h.choices, h.status, h.turn, h.taken⟩, h.frames, h.shape⟩

theorem LeftFrame.aligned {s t : State} (hst : LeftFrame s t) (h : s.Aligned)
    (hin : s.inFunction = true) : t.Aligned := by
  have hdrop := h.dropFrame
  have hleft := (active_of_inFunction h hin).leftFrame_dropFrame hin
  refine hdrop.congr ?_ ?_ (hst.choices.trans hleft.choices.symm)
  · rw [kinds, kinds, hst.frames, hleft.frames]
  · rw [← Store.length_shape, ← Store.length_shape, hst.shape, hleft.shape]

theorem LeftFrame.active {s t : State} (hst : LeftFrame s t) (h : s.Active)
    (hin : s.inFunction = true) : t.Active where
  toAligned := hst.aligned h.toAligned hin
  nonempty := by
    rw [hst.frames]
    exact h.tail_ne_nil FrameKind.isFunction hin rfl

/-- The state is that of a function called from a state: the frame of the function is on top
of the frames there were, or it is gone. -/
structure Within (base t : State) : Prop extends SameTurn base t where
  frames :
    (∃ frame, frame.kind = .function (base.frames.size - 1) ∧
        t.frames.items = frame :: base.frames.items ∧ t.store.outerShape = base.store.shape) ∨
      t.frames = base.frames ∧ t.store.shape = base.store.shape

theorem Within.active {base t : State} (hwithin : Within base t) (h : base.Active) : t.Active := by
  have hdepth := h.scopes
  have hpos := List.length_pos_iff.mpr h.nonempty
  rcases hwithin.frames with ⟨frame, hkind, hitems, hshape⟩ | ⟨hframes, hshape⟩
  · refine ⟨⟨?_, ?_, ?_⟩, by simp [hitems]⟩
    · rw [Store.depth_eq, hshape, Store.length_shape, hitems, List.length_cons]
      omega
    · rw [State.kinds, hitems, List.map_cons, hkind]
      refine isStacked_push (by simpa using h.nonempty) h.frames ?_ fun _ _ _ => rfl
      rw [FrameKind.enteredFrom?, base.frames.size_eq, List.length_map]
    · rw [hwithin.choices]
      exact h.choices
  · refine ⟨h.toAligned.congr ?_ ?_ hwithin.choices, by rw [hframes]; exact h.nonempty⟩
    · rw [State.kinds, State.kinds, hframes]
    · rw [← Store.length_shape, ← Store.length_shape, hshape]

/-- What is within a function while its frame is there. -/
theorem Within.inFunction {base t : State} (hwithin : Within base t)
    (hsize : base.frames.size < t.frames.size) :
    t.inFunction = true ∧ t.frames.items.tail = base.frames.items ∧
      t.store.outerShape = base.store.shape := by
  rcases hwithin.frames with ⟨frame, hkind, hitems, hshape⟩ | ⟨hframes, _⟩
  · refine ⟨?_, by rw [hitems, List.tail_cons], hshape⟩
    rw [inFunction_cons hitems, hkind]
    rfl
  · rw [hframes] at hsize
    omega

theorem Within.withReturned {base t : State} (h : Within base t)
    (value : Option (Option Value)) : Within base { t with returned := value } :=
  ⟨⟨h.choices, h.status, h.turn, h.taken⟩, h.frames⟩

/-- The frame of a function is on top of the frames that it was called from. -/
theorem within_pushFrame {s : State} (h : s.Active) {frame : Frame}
    (hkind : frame.kind = .function (s.frames.size - 1)) : Within s (s.pushFrame frame) where
  toSameTurn := ⟨rfl, rfl, rfl, rfl⟩
  frames := by
    have hempty : s.frames.isEmpty = false := by simpa [Stack.isEmpty] using h.nonempty
    refine .inl ⟨frame, hkind, rfl, ?_⟩
    simp only [State.pushFrame, hempty, Bool.false_eq_true, if_false]
    rfl

/-- Where the frame of a function is gone, the flow is that which it was called from. -/
theorem Within.frames_eq {base t : State} (hwithin : Within base t)
    (hsize : ¬base.frames.size < t.frames.size) :
    t.frames = base.frames ∧ t.store.shape = base.store.shape := by
  rcases hwithin.frames with ⟨frame, _, hitems, _⟩ | hframes
  · rw [base.frames.size_eq, t.frames.size_eq, hitems, List.length_cons] at hsize
    omega
  · exact hframes

theorem Within.sameBelow {base s t : State} (hwithin : Within base s)
    (hsize : base.frames.size < s.frames.size) (hst : SameBelow s t) : Within base t := by
  obtain ⟨_, htail, hshape⟩ := hwithin.inFunction hsize
  refine ⟨hwithin.toSameTurn.trans hst.toSameTurn, .inl ?_⟩
  rcases hwithin.frames with ⟨frame, hkind, hitems, _⟩ | ⟨hframes, _⟩
  · have hkinds := hst.kinds
    rw [State.kinds, State.kinds, hitems, List.map_cons, List.map_eq_cons_iff] at hkinds
    obtain ⟨frame', below, hitems', hkind', _⟩ := hkinds
    have hbelow := hst.below
    rw [hitems', List.tail_cons, htail] at hbelow
    exact ⟨frame', hkind'.trans hkind, by rw [hitems', hbelow], hst.shape.trans hshape⟩
  · rw [hframes] at hsize
    omega

theorem Within.leftFrame {base s t : State} (hwithin : Within base s)
    (hsize : base.frames.size < s.frames.size) (hst : LeftFrame s t) : Within base t := by
  obtain ⟨_, htail, hshape⟩ := hwithin.inFunction hsize
  refine ⟨hwithin.toSameTurn.trans hst.toSameTurn, .inr ⟨?_, hst.shape.trans hshape⟩⟩
  exact Stack.eq_of_items (hst.frames.trans htail)

end State

end Skein
