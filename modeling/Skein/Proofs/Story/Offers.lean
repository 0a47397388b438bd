import Skein.Proofs.Story.Visits

set_option autoImplicit false

/-!
# Story: choices that come to be on offer

Choices on offer are only ever added or dropped.  A block of choices adds its open entries, outside
of functions, and nothing else adds any: not the rendering of other entries, not a divert, not a
function that is called on the way, and not a call of the host, whether it is done or fails.
-/

namespace Skein

open Contract Outcome

/-! ## What is added -/

namespace State

/-- Every choice on offer was so before, or is one that may come. -/
def Gains (may : PendingChoice → Prop) (s t : State) : Prop :=
  ∀ choice ∈ t.choices, choice ∈ s.choices ∨ may choice

variable {may : PendingChoice → Prop} {s t u : State}

theorem gains_of_eq (h : t.choices = s.choices) : s.Gains may t := by
  intro choice hchoice
  rw [h] at hchoice
  exact .inl hchoice

theorem gains_of_eq_nil (h : t.choices = []) : s.Gains may t := by
  intro choice hchoice
  rw [h] at hchoice
  cases hchoice

theorem Gains.trans (hst : s.Gains may t) (htu : t.Gains may u) : s.Gains may u := by
  intro choice hchoice
  rcases htu choice hchoice with hold | hnew
  · exact hst choice hold
  · exact .inr hnew

theorem Gains.mono {may' : PendingChoice → Prop} (h : s.Gains may t)
    (hmay : ∀ choice, may choice → may' choice) : s.Gains may' t :=
  fun choice hchoice => (h choice hchoice).imp_right (hmay choice)

theorem gains_rest (s : State) : s.Gains may s.rest := by
  simp only [rest]
  split
  · split
    · exact gains_of_eq_nil rfl
    · exact gains_of_eq rfl
  · exact gains_of_eq rfl

theorem gains_endFlow (s : State) : s.Gains may s.endFlow := by
  unfold endFlow
  split
  · exact gains_of_eq rfl
  · exact gains_rest s

theorem gains_finishFrame (s : State) : s.Gains may s.finishFrame := by
  simp only [finishFrame]
  split
  · exact (gains_of_eq (s := s) (t := s.dropFrame) rfl).trans (gains_rest _)
  · exact gains_of_eq rfl
  · exact gains_of_eq rfl

end State

/-- Only choices that may come are added to those on offer, done or failed. -/
def gaining (may : PendingChoice → Prop) : Contract StoryFault State where
  kept := State.Gains may
  failed s _ t := s.Gains may t
  refl _ := State.gains_of_eq rfl
  trans := State.Gains.trans
  failed_trans := State.Gains.trans

/-- A choice is an entry of a block. -/
structure Story.Block.Lists (block : Story.Block) (entries : List Entry) (choice : PendingChoice) :
    Prop where
  knot : choice.knot = block.knot
  id : choice.block = block.id
  entry : ∃ entry, entries[choice.entry]? = some entry ∧ choice.result = entry.result ∧
    choice.immediate = entry.immediate ∧ choice.fallback = entry.fallback
  fromThread : choice.fromThread = block.fromThread
  resume : choice.resume = block.resume

/-- The block of choices that a state comes to in a knot. -/
def State.blockAt (s : State) (knot : KnotId) (id : NodeId) : Story.Block :=
  { knot := knot, id := id, fromThread := s.inThread
    resume := resumePoint s.frames.items s.store.scopes }

namespace Story

variable {story : Story} {run : Call} {may : PendingChoice → Prop}

theorem honours_gaining (hrun : ∀ name args, (gaining may).Holds (run name args)) :
    story.Honours run (gaining may) :=
  story.honours_of_still (fun _ _ => State.gains_of_eq rfl)
    (fun h => State.gains_of_eq h.choices) hrun

theorem gaining_throw {α : Type} (fault : StoryFault) :
    (gaining may).Holds (throw fault : Flow α) :=
  holds_throw fun _ => State.gains_of_eq rfl

theorem gaining_modify {f : State → State} (h : ∀ s, (f s).choices = s.choices) :
    (gaining may).Holds (modify f : Flow Unit) :=
  holds_modify fun s => State.gains_of_eq (h s)

/-- Finding places and binding parameters calls no function, so any way to call them will do. -/
theorem honours_gaining_none (story : Story) (may : PendingChoice → Prop) :
    story.Honours (fun _ _ => throw .callDepthExceeded) (gaining may) :=
  honours_gaining fun _ _ => gaining_throw _

section Steps

variable (hc : story.Honours run (gaining may))

include hc

omit hc in
theorem gaining_relocate (knot : Knot) (location : Location) :
    (gaining may).Holds (relocate knot location) := by
  refine ⟨fun s => (ensures_relocate knot location s).mono ?_ ?_⟩
  · rintro _ _ ⟨_, rfl⟩
    exact State.gains_of_eq rfl
  · rintro _ _ rfl
    exact State.gains_of_eq rfl

theorem gaining_goto (target : String) (args : List Expression) :
    (gaining may).Holds (story.goto run target args) := by
  unfold Story.goto
  split
  · exact holds_modify fun s => State.gains_of_eq_nil rfl
  split
  · exact holds_modify State.gains_endFlow
  refine holds_get.bind fun s => (hc.holds (·.all.holds_find target)).bind ?_
  rintro ⟨address, location⟩
  refine (hc.holds (·.holds_divertArguments args)).bind fun arguments => ?_
  refine (hc.holds (·.all.holds_knotAt location.knot)).bind fun knot => ?_
  refine (gaining_relocate knot location).bind fun _ => ?_
  have hsettle : (gaining may).Holds (do
      bindAt address knot arguments
      modify (·.visitAll location.visits) : Flow Unit) :=
    (hc.holds (·.all.holds_bindAt address knot arguments)).bind fun _ =>
      gaining_modify fun s => (sameTurn_visitAll s location.visits).1.choices
  split
  · exact Holds.bind (gaining_modify fun _ => rfl) fun _ => hsettle
  · exact hsettle

theorem gaining_call (kind : Nat → FrameKind) (target : String) (args : List Expression) :
    (gaining may).Holds (story.call run kind target args) := by
  unfold Story.call
  refine (hc.holds (·.all.holds_find target)).bind ?_
  rintro ⟨address, location⟩
  refine (hc.holds (·.holds_divertArguments args)).bind fun arguments => ?_
  refine (hc.holds (·.all.holds_knotAt location.knot)).bind fun knot => ?_
  refine Holds.bind (gaining_modify fun _ => rfl) fun _ => ?_
  refine (hc.holds (·.all.holds_bindAt address knot arguments)).bind fun _ => ?_
  exact gaining_modify fun s => (sameTurn_visitAll s location.visits).1.choices

theorem gaining_leaveTunnel (d : Divert) : (gaining may).Holds (story.leaveTunnel run d) := by
  unfold Story.leaveTunnel
  refine holds_get.bind fun s => ?_
  split
  · refine Holds.bind (gaining_modify fun _ => rfl) fun _ => ?_
    split
    · exact gaining_goto hc _ _
    · exact holds_pure _
  · exact gaining_throw _

theorem gaining_divert (d : Divert) : (gaining may).Holds (story.divert run d) := by
  unfold Story.divert
  split
  · exact gaining_leaveTunnel hc d
  refine holds_get.bind fun s => ?_
  split
  · exact gaining_throw _
  · split
    · exact gaining_call hc _ _ _
    · exact gaining_call hc _ _ _
    · exact gaining_goto hc _ _

omit hc in
theorem gaining_leaveFunction (value : Option Value) :
    (gaining may).Holds (leaveFunction value) := by
  refine holds_get.bind fun s => ?_
  split
  · exact gaining_modify fun _ => rfl
  · exact gaining_throw _

theorem gaining_offerEntry {block : Block} {entries : List Entry}
    (hmay : ∀ choice, block.Lists entries choice → may choice) {place : Nat} {entry : Entry}
    (hentry : entries[place]? = some entry) :
    (gaining may).Holds (story.offerEntry run block place entry) := by
  unfold Story.offerEntry
  refine holds_get.bind fun s => ?_
  split
  · exact holds_pure _
  refine (hc.holds (·.holds_allHold entry.conditions)).bind fun holds => ?_
  split
  · refine (hc.holds (·.holds_choiceText entry)).bind fun rendered => ?_
    refine holds_modify fun t choice hchoice => ?_
    rcases List.mem_append.mp hchoice with hold | hnew
    · exact .inl hold
    · rw [List.mem_singleton] at hnew
      subst hnew
      exact .inr (hmay _ ⟨rfl, rfl, ⟨entry, hentry, rfl, rfl, rfl⟩, rfl, rfl⟩)
  · exact holds_pure _

theorem gaining_offerEntries {block : Block} {entries : List Entry}
    (hmay : ∀ choice, block.Lists entries choice → may choice) (before after : List Entry)
    (hentries : entries = before ++ after) :
    (gaining may).Holds (story.offerEntries run block before.length after) := by
  induction after generalizing before with
  | nil => exact holds_pure _
  | cons entry rest ih =>
      have hentry : entries[before.length]? = some entry := by simp [hentries]
      refine (gaining_offerEntry hc hmay hentry).bind fun _ => ?_
      have hrest := ih (before ++ [entry]) (by simp [hentries])
      rw [List.length_append] at hrest
      exact hrest

/-- A block adds its own entries to the choices on offer, and none inside a function. -/
theorem gaining_offer {s : State} {knot : KnotId} {id : NodeId} {entries : List Entry}
    (hmay : s.inFunction = false →
      ∀ choice, (s.blockAt knot id).Lists entries choice → may choice) :
    (gaining may).Allows s (story.offer run knot id entries s) := by
  unfold Story.offer
  refine ensures_get ?_
  split
  · exact State.gains_of_eq rfl
  next hin =>
    have hout : s.inFunction = false := by simpa using hin
    refine ((gaining_offerEntries hc (hmay hout) [] entries rfl).bind fun _ => ?_).allows s
    dsimp only
    split
    · refine holds_get.bind fun t => ?_
      split
      · exact gaining_throw _
      · exact gaining_modify fun _ => rfl
    · exact holds_modify State.gains_rest

theorem gaining_execute {s : State} {knot : KnotId} {node : Node}
    (hmay : s.inFunction = false → ∀ id entries, node = .choice id entries →
      ∀ choice, (s.blockAt knot id).Lists entries choice → may choice) :
    (gaining may).Allows s (story.execute run knot node s) := by
  cases node with
  | text _ | lineBreak | glue | tag _ => exact (gaining_modify fun _ => rfl).allows s
  | marker _ | global _ | list _ => exact (holds_pure ()).allows s
  | interpolation e =>
      refine ((hc.holds (·.holds_value e)).bind fun value => ?_).allows s
      cases value with
      | none => exact holds_pure _
      | some v => exact gaining_modify fun _ => rfl
  | logic e =>
      refine ((hc.holds (·.holds_evaluate e)).bind fun evaluation => ?_).allows s
      split
      · exact gaining_leaveFunction _
      · exact holds_pure _
  | divert d => exact (gaining_divert hc d).allows s
  | choice id entries => exact gaining_offer hc fun hout => hmay hout id entries rfl
  | conditional subject branches otherwise =>
      refine ((hc.holds (·.holds_pickBranch? subject branches)).bind fun place => ?_).allows s
      exact gaining_modify fun _ => rfl
  | sequence id kind groups =>
      refine ((hc.holds (·.holds_pickGroup? id kind groups.length)).bind fun place => ?_).allows s
      exact gaining_modify fun _ => rfl

end Steps

end Story

/-- A choice is an entry of the block that comes next, and it goes on with the frames and the
scopes there are, with the innermost frame past the block. -/
structure State.Poses (s : State) (choice : PendingChoice) : Prop where
  outside : s.inFunction = false
  block : ∃ cursor next entries, s.next? = some (cursor, next) ∧
    cursor.peek? = some (.choice choice.block entries) ∧
    ({ s with frames := s.frames.mapTop fun _ => next }.blockAt next.knot choice.block).Lists
      entries choice

namespace Story

variable {story : Story}

theorem store_past (s : State) (cursor : Cursor) (next : Frame) :
    (story.past s cursor next).store = s.store := by
  unfold past Story.arrive
  split
  · split <;> rfl
  · rfl

theorem blockAt_past (s : State) (cursor : Cursor) (next : Frame) (knot : KnotId) (id : NodeId) :
    (story.past s cursor next).blockAt knot id =
      { s with frames := s.frames.mapTop fun _ => next }.blockAt knot id := by
  have hframes := story.frames_past s cursor next
  simp only [State.blockAt, State.inThread, State.topKind?, hframes, store_past]

/-- A step adds only choices of the block that comes next. -/
theorem gaining_step {run : Call} (hc : ∀ may, story.Honours run (gaining may)) (s : State) :
    (gaining s.Poses).Allows s (story.step run s) := by
  cases htop : s.frames.top? with
  | none =>
      rw [step_of_idle htop]
      exact State.gains_rest s
  | some frame =>
      cases hnext : frame.next? with
      | none =>
          rw [step_of_finished htop hnext]
          exact State.gains_finishFrame s
      | some found =>
          obtain ⟨cursor, next⟩ := found
          have hbelow : s.SameBelow (story.past s cursor next) := sameBelow_past htop hnext
          cases hnode : cursor.peek? with
          | none =>
              rw [step_of_passed htop hnext hnode]
              exact State.gains_of_eq hbelow.choices
          | some node =>
              -- On the way to the node neither the choices nor the scopes change.
              rw [step_of_node htop hnext hnode]
              have hexecute : (gaining s.Poses).Allows (story.past s cursor next)
                  (story.execute run next.knot node (story.past s cursor next)) := by
                refine gaining_execute (hc s.Poses) fun hout id entries heq choice hlists => ?_
                subst heq
                rw [blockAt_past] at hlists
                have hid : choice.block = id := hlists.id
                refine ⟨?_, cursor, next, entries, ?_, ?_, ?_⟩
                · rw [← hbelow.stays.inFunction_eq]
                  exact hout
                · rw [State.next?, htop, Option.bind_some, hnext]
                · rw [hid]
                  exact hnode
                · rw [hid]
                  exact hlists
              exact hexecute.mono
                (fun _ _ ht => (State.gains_of_eq hbelow.choices).trans ht)
                fun _ _ ht => (State.gains_of_eq hbelow.choices).trans ht

/-- Inside a function a step adds no choice at all. -/
theorem gaining_step_inFunction {run : Call} (hc : ∀ may, story.Honours run (gaining may))
    {s : State} (hin : s.inFunction = true) (may : PendingChoice → Prop) :
    (gaining may).Allows s (story.step run s) := by
  have hnone (choice : PendingChoice) (h : s.Poses choice) : may choice := by
    have hout := h.outside
    rw [hin] at hout
    cases hout
  exact (gaining_step hc s).mono (fun _ _ ht => ht.mono hnone) fun _ _ ht => ht.mono hnone

/-! ## Functions -/

theorem gaining_watched {may : PendingChoice → Prop} {body : Flow Unit} {s : State}
    (halt : State → Bool) (h : (gaining may).Allows s (body s)) :
    (gaining may).Allows s (Flow.watched halt body s) := by
  refine ensures_get ?_
  extract_lets stay
  split
  · exact State.gains_of_eq rfl
  · refine Ensures.bind (h.mono (fun _ t ht => ensures_get ?_) fun _ _ ht => ht)
    split
    · exact ht
    · exact ht

/-- Until its frame is gone, a function adds no choice. -/
theorem gaining_repeatCalled {may : PendingChoice → Prop} {body : Flow Unit}
    (hstays : ∀ s, story.Tells body s fun _ t => s.inFunction = true → s.Inside t)
    (hbody : ∀ s, s.inFunction = true → (gaining may).Allows s (body s)) {base s : State}
    (hs : Called base s) (limit remaining : Nat) :
    (gaining may).Allows base
      (Flow.repeatWhile (fun t => base.frames.size < t.frames.size) limit body remaining s) := by
  refine (Flow.ensures_repeatWhile (Called base) ?_ ?_ remaining hs).mono ?_ fun _ _ ht => ht
  · intro t ht _
    exact State.gains_of_eq ht.choices
  · intro t ht htest
    have hsize := of_decide_eq_true htest
    have hin := (ht.inFunction hsize).1
    refine Ensures.mono (Ensures.and (hstays t) (hbody t hin)) ?_ ?_
    · rintro _ u ⟨⟨_, hinside⟩, _⟩
      exact ht.inside hsize (hinside hin)
    · rintro _ u ⟨_, hu⟩
      exact (State.gains_of_eq ht.choices).trans hu
  · rintro _ t ⟨ht, _⟩
    exact State.gains_of_eq ht.choices

/-- A function adds no choice, done or failed, if the steps of its body add none and stay in it. -/
theorem gaining_runBy {may : PendingChoice → Prop} {body : Flow Unit}
    (hstays : ∀ s, story.Tells body s fun _ t => s.inFunction = true → s.Inside t)
    (hbody : ∀ s, s.inFunction = true → (gaining may).Allows s (body s)) (name : String)
    (arguments : List Argument) : (gaining may).Holds (story.runBy body name arguments) := by
  have hc := story.honours_gaining_none may
  unfold Story.runBy
  split
  · exact gaining_throw _
  next id _ =>
    have hlocate := story.script.locate_ne_emptyFrameStack (.knot id)
    refine (hc.holds (·.all.holds_ofNavigation hlocate)).bind fun location => ?_
    refine (hc.holds (·.all.holds_knotAt id)).bind fun knot => ?_
    split
    · -- The frame of the function is on top until it is gone, and there no block adds anything.
      refine ⟨fun s => ?_⟩
      let frame := Frame.atLocation (.function (s.frames.size - 1)) knot.objects location
      show Ensures _ _ ((bindAt (.knot id) knot arguments >>= _) (s.pushFrame frame))
      have hbind := story.ensures_bindAt (.knot id) knot arguments (s.pushFrame frame)
      refine Ensures.bind (hbind.mono (fun _ t ht => ?_) ?_)
      · obtain ⟨hturn, hframes⟩ := sameTurn_visitAll t location.visits
        have hall := ht.toSameTurn.trans hturn
        have hcalled : Called s { t.visitAll location.visits with returned := none } :=
          ⟨⟨hall.choices, hall.status, hall.turn, hall.taken⟩,
            .inl ⟨frame, rfl, congrArg Stack.items (hframes.trans ht.frames)⟩⟩
        have hloop := gaining_repeatCalled hstays hbody hcalled story.config.stepLimit
          story.config.stepLimit
        show Ensures _ _ ((Flow.repeatWhile _ _ _ _ >>= _) _)
        exact Ensures.bind (hloop.mono (fun _ _ hu => hu) fun _ _ hu => hu)
      · rintro _ t ⟨ht, _⟩
        exact State.gains_of_eq ht.choices
    · exact gaining_throw _

theorem gaining_watchedFunction (story : Story) (halt : State → Bool) (depth : Nat)
    (may : PendingChoice → Prop) :
    ∀ name args, (gaining may).Holds (story.watchedFunction halt depth name args) := by
  induction depth generalizing may with
  | zero =>
      intro name args
      exact gaining_throw _
  | succ depth ih =>
      have hchronicled := honours_chronicled (story.chronicled_watchedFunction halt depth)
      refine gaining_runBy (fun s => (tells_step hchronicled s).watched halt) fun s hin => ?_
      exact gaining_watched halt (gaining_step_inFunction (fun _ => honours_gaining (ih _)) hin may)

/-! ## Requests -/

section Requests

variable {may : PendingChoice → Prop}

theorem gaining_startAt (story : Story) (path : String) :
    (gaining may).Holds (story.startAt path) := by
  have hc := story.honours_gaining_none may
  unfold Story.startAt
  split
  · exact gaining_throw _
  next address _ =>
    have hlocate := story.script.locate_ne_emptyFrameStack address
    refine (hc.holds (·.all.holds_ofNavigation hlocate)).bind fun location => ?_
    refine (hc.holds (·.all.holds_knotAt location.knot)).bind fun knot => ?_
    refine Holds.bind (holds_modify fun s => State.gains_of_eq_nil rfl) fun _ => ?_
    refine (hc.holds (·.all.holds_bindAt address knot [])).bind fun _ => ?_
    exact gaining_modify fun s => (sameTurn_visitAll s location.visits).1.choices

theorem gaining_checkValue (value : Value) : (gaining may).Holds (checkValue value) := by
  cases value with
  | list l =>
      refine holds_get.bind fun s => ?_
      cases s.store.registry.check l with
      | ok _ => exact holds_pure _
      | error fault => exact gaining_throw _
  | bool _ | int _ | float _ | string _ => exact holds_pure _

theorem gaining_setVariable (name : String) (value : Value) :
    (gaining may).Holds (setVariable name value) := by
  unfold Story.setVariable
  refine holds_get.bind fun s => ?_
  dsimp only
  split
  · refine (gaining_checkValue value).bind fun _ => ?_
    cases s.store.set name value with
    | error fault => exact gaining_throw _
    | ok store => exact gaining_modify fun _ => rfl
  · exact gaining_throw _

end Requests

end Story

end Skein
