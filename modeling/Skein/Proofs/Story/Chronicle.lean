import Skein.Proofs.Story.Events

set_option autoImplicit false

/-!
# Story: what happens in the course of a run

Every request and every step comes with a trace, done or failed, and so do the functions that
are called on the way.  So what every small change keeps holds in all states that a story can
come to, and what was counted can be compared with what happened.
-/

namespace Skein

open Contract Outcome

namespace Story

variable {story : Story}

/-! ## Computations with a trace -/

/-- A computation comes with a trace, also where it fails; where it succeeds it comes out as
stated. -/
def Tells (story : Story) {α : Type} (x : Flow α) (s : State) (good : α → State → Prop) : Prop :=
  Ensures (fun a t => story.Traced s t ∧ good a t) (fun _ t => story.Traced s t) (x s)

/-- What does not move anything has a trace, done or failed. -/
def chronicled (story : Story) : Contract StoryFault State where
  kept s t := (s.SameTurn t ∧ t.frames = s.frames) ∧ story.Traced s t
  failed s _ t := story.Traced s t
  refl s := ⟨⟨.refl s, rfl⟩, .refl s⟩
  trans hst htu := ⟨⟨hst.1.1.trans htu.1.1, htu.1.2.trans hst.1.2⟩, hst.2.trans htu.2⟩
  failed_trans hst htu := hst.2.trans htu

theorem kept_of_still {s t : State} (h : Still s t) : story.chronicled.kept s t :=
  ⟨⟨h.toSameTurn, h.frames⟩, traced_of_still h⟩

section Tells

variable {α β : Type} {s : State}

theorem Tells.mono {x : Flow α} {good good' : α → State → Prop} (h : story.Tells x s good)
    (hgood : ∀ a t, good a t → good' a t) : story.Tells x s good' :=
  Ensures.mono h (fun a t ht => ⟨ht.1, hgood a t ht.2⟩) fun _ _ ht => ht

theorem Tells.after {x : Flow α} {t : State} {good : α → State → Prop} (hst : story.Traced s t)
    (h : story.Tells x t good) :
    Ensures (fun a u => story.Traced s u ∧ good a u) (fun _ u => story.Traced s u) (x t) :=
  Ensures.mono h (fun _ _ hu => ⟨hst.trans hu.1, hu.2⟩) fun _ _ hu => hst.trans hu

theorem Tells.bind {x : Flow α} {f : α → Flow β} {good : α → State → Prop}
    {good' : β → State → Prop} (hx : story.Tells x s good)
    (hf : ∀ a t, good a t → story.Tells (f a) t good') : story.Tells (x >>= f) s good' := by
  refine Ensures.bind (Ensures.mono hx ?_ fun _ _ ht => ht)
  rintro a t ⟨hst, ht⟩
  exact Tells.after hst (hf a t ht)

theorem tells_get {f : State → Flow β} {good : β → State → Prop} (h : story.Tells (f s) s good) :
    story.Tells (get >>= f) s good := h

theorem tells_throw {fault : StoryFault} {good : α → State → Prop} :
    story.Tells (throw fault : Flow α) s good := .refl s

theorem tells_modify {f : State → State} {good : Unit → State → Prop}
    (htraced : story.Traced s (f s)) (hgood : good () (f s)) : story.Tells (modify f) s good :=
  ⟨htraced, hgood⟩

/-- What moves nothing can be followed by something from where one was. -/
theorem tells_of_holds {x : Flow α} (hx : story.chronicled.Holds x) :
    story.Tells x s fun _ t => s.SameTurn t ∧ t.frames = s.frames :=
  Ensures.mono (hx.allows s) (fun _ _ ht => ht.symm) fun _ _ ht => ht

theorem holds_of_tells {x : Flow α}
    (hx : ∀ s, story.Tells x s fun _ t => s.SameTurn t ∧ t.frames = s.frames) :
    story.chronicled.Holds x :=
  ⟨fun s => Ensures.mono (hx s) (fun _ _ ht => ht.symm) fun _ _ ht => ht⟩

theorem Tells.watched {body : Flow Unit} {good : State → Prop} (halt : State → Bool)
    (h : story.Tells body s fun _ t => good t) :
    story.Tells (Flow.watched halt body) s fun _ t => good t := by
  refine tells_get ?_
  extract_lets stay
  split
  · exact tells_throw
  · refine h.bind fun _ t ht => tells_get ?_
    split
    · exact tells_throw
    · exact ⟨.refl t, ht⟩

end Tells

/-! ## Evaluation and binding -/

/-- A contract that allows every failure, and to which nothing matters that moves nothing and
counts nothing, is honoured by flow that does not move if the calls of functions do. -/
theorem honours_of_still (story : Story) {run : Call} {c : Contract StoryFault State}
    (hfail : ∀ (s : State) (fault : StoryFault), c.failed s fault s)
    (hkept : ∀ {s t : State}, Still s t → c.kept s t)
    (hrun : ∀ name args, c.Holds (run name args)) : story.Honours run c where
  host :=
    { fail := fun _ s => hfail s _
      set := fun _ => hkept ⟨⟨rfl, rfl, rfl, rfl⟩, rfl, rfl⟩
      declare := fun _ _ _ => hkept ⟨⟨rfl, rfl, rfl, rfl⟩, rfl, rfl⟩
      random := fun _ _ _ => hkept ⟨⟨rfl, rfl, rfl, rfl⟩, rfl, rfl⟩
      reseed := fun _ _ => hkept ⟨⟨rfl, rfl, rfl, rfl⟩, rfl, rfl⟩
      callStory := hrun
      callExternal := holds_callExternal (fun _ s => hfail s _)
        fun _ _ => hkept ⟨⟨rfl, rfl, rfl, rfl⟩, rfl, rfl⟩ }
  fail _ s := hfail s _
  nextGroup _ _ _ _ := hkept ⟨⟨rfl, rfl, rfl, rfl⟩, rfl, rfl⟩
  addAlias _ _ _ := hkept ⟨⟨rfl, rfl, rfl, rfl⟩, rfl, rfl⟩

theorem honours_chronicled {run : Call}
    (hrun : ∀ name args, story.chronicled.Holds (run name args)) :
    story.Honours run story.chronicled :=
  story.honours_of_still (fun s _ => .refl s) kept_of_still hrun

theorem Still.refl (s : State) : Still s s := ⟨.refl s, rfl, rfl⟩

theorem Still.trans {s t u : State} (hst : Still s t) (htu : Still t u) : Still s u :=
  ⟨hst.toSameTurn.trans htu.toSameTurn, htu.frames.trans hst.frames, htu.visits.trans hst.visits⟩

/-- Nothing moves and nothing is counted, done or failed. -/
def still : Contract StoryFault State where
  kept := Still
  failed s _ t := Still s t
  refl := Still.refl
  trans := Still.trans
  failed_trans := Still.trans

/-- Parameters are bound without a trace, and only those of knots can fail to be. -/
theorem ensures_bindAt (story : Story) (address : Address) (knot : Knot)
    (arguments : List Argument) (s : State) :
    Ensures (fun _ t => Still s t) (fun _ t => Still s t ∧ ∃ id, address = .knot id)
      (bindAt address knot arguments s) := by
  cases address with
  | stitch _ _ => exact Still.refl s
  | gather _ _ => exact Still.refl s
  | knot id =>
      -- Binding calls no function, so any way to call them will do.
      have hc : story.Honours (fun _ _ => throw .callDepthExceeded) still :=
        story.honours_of_still (fun s _ => Still.refl s) (fun h => h)
          fun _ _ => holds_throw fun s => Still.refl s
      exact Ensures.mono ((hc.holds (·.all.holds_bindAt (.knot id) knot arguments)).allows s)
        (fun _ _ ht => ht) fun _ _ ht => ⟨ht, id, rfl⟩

theorem visits_visitAll_congr {s t : State} (h : t.visits = s.visits) (ids : List NodeId) :
    (t.visitAll ids).visits = (s.visitAll ids).visits := by
  induction ids generalizing s t with
  | nil => exact h
  | cons id rest ih => exact ih (by simp only [State.visit, h])

theorem sameTurn_visitAll (s : State) (ids : List NodeId) :
    s.SameTurn (s.visitAll ids) ∧ (s.visitAll ids).frames = s.frames := by
  induction ids generalizing s with
  | nil => exact ⟨.refl s, rfl⟩
  | cons id rest ih =>
      obtain ⟨hturn, hframes⟩ := ih (s.visit id)
      exact ⟨⟨hturn.choices, hturn.status, hturn.turn, hturn.taken⟩, hframes⟩

/-- Binding parameters and counting visits completes the move to a place. -/
theorem ensures_settle {s t : State} {address : Address} {location : Location} {knot : Knot}
    (hlocate : story.script.locate address = .ok location)
    (hknot : story.script.knot? location.knot = some knot)
    (hplaced : Placed s.frames knot.objects location t.frames) (hturn : s.SameTurn t)
    (hvisits : t.visits = s.visits) (arguments : List Argument) :
    Ensures (fun _ u => story.Traced s u ∧ s.SameTurn u ∧ u.frames = t.frames)
      (fun _ u => story.Traced s u)
      ((do
        bindAt address knot arguments
        modify (·.visitAll location.visits) : Flow Unit) t) := by
  refine Ensures.bind ((story.ensures_bindAt address knot arguments t).mono ?_ ?_)
  · intro _ u hu
    obtain ⟨hturn', hframes⟩ := sameTurn_visitAll u location.visits
    have hall := (hturn.trans hu.toSameTurn).trans hturn'
    refine ⟨(Happens.entered hlocate hknot ?_ hall ?_).traced, hall, hframes.trans hu.frames⟩
    · rw [hframes, hu.frames]
      exact hplaced
    · exact visits_visitAll_congr (hu.visits.trans hvisits) _
  · rintro _ u ⟨hu, id, rfl⟩
    refine (Happens.refused hlocate hknot ?_ (hturn.trans hu.toSameTurn) ?_).traced
    · rw [hu.frames]
      exact hplaced
    · exact hu.visits.trans hvisits

/-! ## Diverts -/

section Steps

variable {run : Call} (hc : story.Honours run story.chronicled)

include hc

omit hc in
/-- Finding a place changes nothing, and what is found is where the address lies. -/
theorem tells_find (path : String) (s : State) :
    story.Tells (story.find path) s fun found t =>
      t = s ∧ story.script.locate found.1 = .ok found.2 := by
  unfold Story.find
  refine tells_get ?_
  split
  · exact tells_throw
  · next address _ =>
      cases hlocate : story.script.locate address with
      | error fault => exact tells_throw
      | ok location => exact ⟨.refl s, rfl, hlocate⟩

omit hc in
theorem tells_knotAt (id : KnotId) (s : State) :
    story.Tells (story.knotAt id) s fun knot t => t = s ∧ story.script.knot? id = some knot := by
  unfold Story.knotAt
  split
  · next knot hknot => exact ⟨.refl s, rfl, hknot⟩
  · exact tells_throw

omit hc in
theorem ensures_relocate (knot : Knot) (location : Location) (s : State) :
    Ensures
      (fun _ t => s.frames.items ≠ [] ∧
        t = { s with frames := s.frames.mapTop (·.relocate knot.objects location) })
      (fun _ t => t = s) (relocate knot location s) := by
  refine ensures_get ?_
  split
  · exact rfl
  · next hempty => exact ⟨by simpa [Stack.isEmpty] using hempty, rfl⟩

theorem tells_goto (target : String) (args : List Expression) (s : State) :
    story.Tells (story.goto run target args) s fun _ _ => True := by
  unfold Story.goto
  split
  · exact tells_modify (traced_finish s) trivial
  split
  · exact tells_modify (traced_endFlow s) trivial
  refine tells_get ?_
  refine (tells_find target s).bind ?_
  rintro ⟨address, location⟩ _ ⟨rfl, hlocate⟩
  refine (tells_of_holds (hc.holds (·.holds_divertArguments args))).bind fun arguments t _ => ?_
  refine (tells_knotAt location.knot t).bind ?_
  rintro knot t ⟨rfl, hknot⟩
  refine Ensures.bind ((ensures_relocate knot location t).mono ?_ ?_)
  · rintro _ _ ⟨hframes, rfl⟩
    have hsettle (store : Store) := (ensures_settle (s := t) (t := { t with
      frames := t.frames.mapTop (·.relocate knot.objects location), store := store })
      hlocate hknot (.moved hframes) ⟨rfl, rfl, rfl, rfl⟩ rfl arguments).mono
        (fun _ _ hu => And.intro hu.1 trivial) fun _ _ hu => hu
    split
    · exact hsettle t.store.resetScope
    · exact hsettle t.store
  · rintro _ _ rfl
    exact Traced.refl _

theorem tells_call (kind : Nat → FrameKind) (target : String) (args : List Expression) (s : State) :
    story.Tells (story.call run kind target args) s fun _ _ => True := by
  unfold Story.call
  refine (tells_find target s).bind ?_
  rintro ⟨address, location⟩ _ ⟨rfl, hlocate⟩
  refine (tells_of_holds (hc.holds (·.holds_divertArguments args))).bind fun arguments t _ => ?_
  refine (tells_knotAt location.knot t).bind ?_
  rintro knot t ⟨rfl, hknot⟩
  exact Ensures.mono (ensures_settle (t := t.pushFrame _) hlocate hknot
    (.entered (kind (t.frames.size - 1))) ⟨rfl, rfl, rfl, rfl⟩ rfl arguments)
    (fun _ _ hu => ⟨hu.1, trivial⟩) fun _ _ hu => hu

theorem tells_leaveTunnel (d : Divert) (s : State) :
    story.Tells (story.leaveTunnel run d) s fun _ _ => s.inTunnel = true := by
  unfold Story.leaveTunnel
  refine tells_get ?_
  split
  · next htunnel =>
      refine Tells.bind (tells_modify Happens.left.traced trivial) fun _ t (_ : True) => ?_
      split
      · exact (tells_goto hc _ _ t).mono fun _ _ _ => htunnel
      · exact ⟨.refl t, htunnel⟩
  · exact tells_throw

theorem tells_divert (d : Divert) (s : State) :
    story.Tells (story.divert run d) s fun _ _ => s.inFunction = false := by
  unfold Story.divert
  split
  · exact (tells_leaveTunnel hc d s).mono fun _ _ h => State.inFunction_of_inTunnel h
  refine tells_get ?_
  split
  · exact tells_throw
  next hin =>
    have hout : s.inFunction = false := by simpa using hin
    split
    · exact (tells_call hc _ _ _ s).mono fun _ _ _ => hout
    · exact (tells_call hc _ _ _ s).mono fun _ _ _ => hout
    · exact (tells_goto hc _ _ s).mono fun _ _ _ => hout

omit hc in
theorem inside_dropFrame (s : State) (value : Option (Option Value)) :
    s.Inside { s.dropFrame with returned := value } :=
  .out ⟨rfl, rfl, rfl, rfl⟩ rfl

omit hc in
theorem traced_return (s : State) (value : Option (Option Value)) :
    story.Traced s { s.dropFrame with returned := value } :=
  Happens.left.traced.next (.quiet ⟨⟨rfl, rfl, rfl, rfl⟩, rfl, rfl⟩)

omit hc in
theorem tells_leaveFunction (value : Option Value) (s : State) :
    story.Tells (leaveFunction value) s fun _ t => s.Inside t := by
  refine tells_get ?_
  split
  · exact tells_modify (traced_return s _) (inside_dropFrame s _)
  · exact tells_throw

/-! ## Offers -/

omit hc in
theorem At.congr {s t : State} {knot : KnotId} {node : Node} (h : s.At knot node)
    (hframes : t.frames = s.frames) : t.At knot node := by
  unfold State.At
  rw [hframes]
  exact h

/-- An entry of a block is offered, if it is open, with the frames there are. -/
theorem tells_offerEntry {s : State} {block : Block} {entries : List Entry} {place : Nat}
    {entry : Entry} (hat : s.At block.knot (.choice block.id entries))
    (hentry : entries[place]? = some entry) (scopes : List Scope)
    (hresume : block.resume = resumePoint s.frames.items scopes) :
    story.Tells (story.offerEntry run block place entry) s fun _ t => t.frames = s.frames := by
  unfold Story.offerEntry
  refine tells_get ?_
  split
  · exact ⟨.refl s, rfl⟩
  next hfree =>
    refine (tells_of_holds (hc.holds (·.holds_allHold _))).bind fun holds t ht => ?_
    split
    · refine (tells_of_holds (hc.holds (·.holds_choiceText entry))).bind fun rendered u hu => ?_
      have hframes : u.frames = s.frames := hu.2.trans ht.2
      have htaken : u.taken = s.taken := hu.1.taken.trans ht.1.taken
      refine tells_modify (Happens.offered (?_ : u.Opens _ entries entry)).traced hframes
      refine ⟨At.congr hat hframes, hentry, rfl, rfl, fun hsticky => ?_, scopes, ?_⟩
      · rw [htaken]
        simpa [hsticky, State.isTaken, PendingChoice.key] using hfree
      · rw [hframes]
        exact hresume
    · exact ⟨.refl t, ht.2⟩

theorem tells_offerEntries {s : State} (block : Block) {entries : List Entry}
    (hat : s.At block.knot (.choice block.id entries)) (scopes : List Scope)
    (hresume : block.resume = resumePoint s.frames.items scopes) (before after : List Entry)
    (hentries : entries = before ++ after) :
    story.Tells (story.offerEntries run block before.length after) s
      fun _ t => t.frames = s.frames := by
  induction after generalizing before s with
  | nil => exact ⟨.refl s, rfl⟩
  | cons entry rest ih =>
      have hentry : entries[before.length]? = some entry := by simp [hentries]
      refine (tells_offerEntry hc hat hentry scopes hresume).bind fun _ t hframes => ?_
      have hrest := ih (s := t) (At.congr hat hframes) (by rw [hframes]; exact hresume)
        (before ++ [entry]) (by simp [hentries])
      rw [List.length_append] at hrest
      exact hrest.mono fun _ u hu => hu.trans hframes

theorem tells_offer {s : State} {knot : KnotId} {id : NodeId} {entries : List Entry}
    (hat : s.At knot (.choice id entries)) :
    story.Tells (story.offer run knot id entries) s fun _ _ => s.inFunction = false := by
  unfold Story.offer
  refine tells_get ?_
  split
  · exact tells_throw
  next hin =>
    have hout : s.inFunction = false := by simpa using hin
    refine (tells_offerEntries hc ⟨knot, id, s.inThread, _⟩ hat s.store.scopes rfl [] _ rfl).bind
      fun _ t _ => ?_
    dsimp only
    split
    · refine tells_get ?_
      split
      · exact tells_throw
      · exact tells_modify Happens.left.traced hout
    · exact tells_modify (traced_rest t) hout

/-! ## Steps -/

omit hc in
theorem pushContent_nil (s : State) : s.pushContent [] = s := by
  have hitems : (s.frames.mapTop fun frame => frame.pushContent []) = s.frames := by
    refine Stack.eq_of_items ?_
    show s.frames.items.modifyHead _ = s.frames.items
    cases s.frames.items with
    | nil => rfl
    | cons top below => rfl
  unfold State.pushContent
  rw [hitems]

omit hc in
/-- Content inside the node that a frame is at is run by that frame. -/
theorem tells_pushContent {s : State} {knot : KnotId} {node : Node} {content : Content}
    (hat : s.At knot node) (hcontent : content = [] ∨ content ∈ node.runs) :
    story.Tells (modify (·.pushContent content)) s fun _ t => s.Inside t := by
  refine tells_modify ?_ ?_
  · rcases hcontent with rfl | hmem
    · rw [pushContent_nil]
      exact .refl s
    · exact (Happens.nested hat hmem).traced
  · exact .on (State.sameBelow_pushContent s content).stays

omit hc in
theorem branchContent_mem (subject : Option Expression) (branches : List Branch)
    (otherwise : Option Content) (place : Option Nat) :
    branchContent branches otherwise place = [] ∨
      branchContent branches otherwise place ∈
        (Node.conditional subject branches otherwise).runs := by
  cases place with
  | none =>
      cases otherwise with
      | none => exact .inl rfl
      | some content => exact .inr (List.mem_append_left _ (by simp [branchContent]))
  | some place =>
      have hcontent : branchContent branches otherwise (some place) =
          (branches[place]?.map (·.content)).getD [] := rfl
      rw [hcontent]
      cases hbranch : branches[place]? with
      | none => exact .inl rfl
      | some branch =>
          refine .inr (List.mem_append_right _ ?_)
          exact List.mem_map_of_mem (List.mem_of_getElem? hbranch)

omit hc in
theorem groupContent_mem (id : NodeId) (kind : SequenceKind) (groups : List Content)
    (place : Option Nat) :
    groupContent groups place = [] ∨
      groupContent groups place ∈ (Node.sequence id kind groups).runs := by
  unfold groupContent
  cases hgroup : place.bind (groups[·]?) with
  | none => exact .inl rfl
  | some group =>
      obtain ⟨index, _, hindex⟩ := Option.bind_eq_some_iff.mp hgroup
      exact .inr (List.mem_of_getElem? hindex)

/-- A node that the innermost frame is at is run with a trace, and inside a function it stays
in the function or ends it. -/
theorem tells_execute {s : State} {knot : KnotId} {node : Node} (hat : s.At knot node) :
    story.Tells (story.execute run knot node) s fun _ t => s.inFunction = true → s.Inside t := by
  have hnot {t : State} (hout : s.inFunction = false) (hin : s.inFunction = true) : s.Inside t := by
    rw [hout] at hin
    cases hin
  cases node with
  | text _ | lineBreak | glue | tag _ =>
      refine tells_modify (traced_of_still ⟨⟨rfl, rfl, rfl, rfl⟩, rfl, rfl⟩) fun _ => ?_
      exact .on (.of_frames ⟨rfl, rfl, rfl, rfl⟩ rfl)
  | marker _ | global _ | list _ => exact ⟨.refl s, fun _ => .on (.of_frames (.refl s) rfl)⟩
  | interpolation e =>
      refine (tells_of_holds (hc.holds (·.holds_value e))).bind fun value t ht => ?_
      have hstays := State.Stays.of_frames ht.1 ht.2
      cases value with
      | none => exact ⟨.refl t, fun _ => .on hstays⟩
      | some v =>
          refine tells_modify (traced_of_still ⟨⟨rfl, rfl, rfl, rfl⟩, rfl, rfl⟩) fun _ => ?_
          exact hstays.inside (.on (.of_frames ⟨rfl, rfl, rfl, rfl⟩ rfl))
  | logic e =>
      refine (tells_of_holds (hc.holds (·.holds_evaluate e))).bind fun evaluation t ht => ?_
      have hstays := State.Stays.of_frames ht.1 ht.2
      split
      · exact (tells_leaveFunction _ t).mono fun _ u hu _ => hstays.inside hu
      · exact ⟨.refl t, fun _ => .on hstays⟩
  | divert d => exact (tells_divert hc d s).mono fun _ _ h => hnot h
  | choice id entries => exact (tells_offer hc hat).mono fun _ _ h => hnot h
  | conditional subject branches otherwise =>
      refine (tells_of_holds (hc.holds (·.holds_pickBranch? subject branches))).bind ?_
      intro place t ht
      refine (tells_pushContent (At.congr hat ht.2) (branchContent_mem _ _ _ _)).mono ?_
      intro _ u hu _
      exact (State.Stays.of_frames ht.1 ht.2).inside hu
  | sequence id kind groups =>
      refine (tells_of_holds (hc.holds (·.holds_pickGroup? id kind groups.length))).bind ?_
      intro place t ht
      refine (tells_pushContent (At.congr hat ht.2) (groupContent_mem _ _ _ _)).mono ?_
      intro _ u hu _
      exact (State.Stays.of_frames ht.1 ht.2).inside hu

omit hc in
theorem mem_of_peek? {cursor : Cursor} {node : Node} (h : cursor.peek? = some node) :
    node ∈ cursor.content := by
  unfold Cursor.peek? at h
  split at h
  · cases h
  · exact List.mem_of_getElem? h

omit hc in
/-- A frame that has run out is left. -/
theorem tells_finishFrame (s : State) :
    story.Traced s s.finishFrame ∧ (s.inFunction = true → s.Inside s.finishFrame) := by
  have hleft : story.Traced s s.dropFrame := Happens.left.traced
  simp only [State.finishFrame]
  split
  · next htop =>
      refine ⟨hleft.trans (traced_rest _), fun hin => ?_⟩
      rw [State.inFunction, htop] at hin
      cases hin
  · exact ⟨traced_return s _, fun _ => inside_dropFrame s _⟩
  · exact ⟨hleft, fun _ => inside_dropFrame s s.returned⟩

/-- A step has a trace, and inside a function it stays in the function or ends it. -/
theorem tells_step (s : State) :
    story.Tells (story.step run) s fun _ t => s.inFunction = true → s.Inside t := by
  unfold Tells
  cases htop : s.frames.top? with
  | none =>
      rw [step_of_idle htop]
      refine ⟨traced_rest s, fun hin => ?_⟩
      rw [State.inFunction, State.topKind?, htop] at hin
      cases hin
  | some frame =>
      cases hnext : frame.next? with
      | none =>
          rw [step_of_finished htop hnext]
          exact tells_finishFrame s
      | some next =>
          obtain ⟨cursor, frame'⟩ := next
          have hstays : s.Stays (story.past s cursor frame') := (sameBelow_past htop hnext).stays
          have htraced : story.Traced s (story.past s cursor frame') :=
            (Happens.reached htop hnext).traced
          cases hnode : cursor.peek? with
          | none =>
              rw [step_of_passed htop hnext hnode]
              exact ⟨htraced, fun _ => .on hstays⟩
          | some node =>
              rw [step_of_node htop hnext hnode]
              refine Tells.after htraced ((tells_execute hc ?_).mono fun _ u hu hin => ?_)
              · obtain ⟨below, hitems⟩ := List.head?_eq_some_iff.mp htop
                obtain ⟨_, outer, hcursors, _⟩ := Frame.of_next? hnext
                have hmem : node ∈ cursor.content := mem_of_peek? hnode
                refine ⟨frame', ?_, rfl, { cursor with index := cursor.index + 1 },
                  hcursors ▸ List.mem_cons_self, hmem⟩
                rw [frames_past]
                show (s.frames.items.modifyHead _).head? = _
                rw [hitems]
                rfl
              · exact hstays.inside (hu (hstays.inFunction_eq.trans hin))

/-! ## Functions -/

omit hc in
/-- A function is called from a state: its frame is on top of the frames there were, or it is
gone. -/
structure Called (base t : State) : Prop extends State.SameTurn base t where
  frames :
    (∃ frame, frame.kind.isFunction = true ∧ t.frames.items = frame :: base.frames.items) ∨
      t.frames.items = base.frames.items

omit hc in
theorem Called.inFunction {base t : State} (h : Called base t)
    (hsize : base.frames.size < t.frames.size) :
    t.inFunction = true ∧ t.frames.items.tail = base.frames.items := by
  rcases h.frames with ⟨frame, hkind, hitems⟩ | hitems
  · exact ⟨(State.inFunction_cons hitems).trans hkind, by rw [hitems, List.tail_cons]⟩
  · rw [base.frames.size_eq, t.frames.size_eq, hitems] at hsize
    omega

omit hc in
theorem Called.inside {base s t : State} (h : Called base s)
    (hsize : base.frames.size < s.frames.size) (hst : s.Inside t) : Called base t := by
  obtain ⟨hin, htail⟩ := h.inFunction hsize
  cases hst with
  | out hturn hframes => exact ⟨h.toSameTurn.trans hturn, .inr (hframes.trans htail)⟩
  | on hst =>
      refine ⟨h.toSameTurn.trans hst.toSameTurn, .inl ?_⟩
      rw [← hst.inFunction_eq] at hin
      cases hitems : t.frames.items with
      | nil =>
          rw [State.inFunction, State.topKind?, Stack.top?, hitems] at hin
          cases hin
      | cons frame below =>
          have hbelow := hst.below
          rw [hitems, List.tail_cons, htail] at hbelow
          rw [State.inFunction_cons hitems] at hin
          exact ⟨frame, hin, by rw [hbelow]⟩

omit hc in
theorem Called.frames_eq {base t : State} (h : Called base t)
    (hsize : ¬base.frames.size < t.frames.size) : t.frames = base.frames := by
  rcases h.frames with ⟨frame, _, hitems⟩ | hitems
  · rw [base.frames.size_eq, t.frames.size_eq, hitems, List.length_cons] at hsize
    omega
  · exact Stack.eq_of_items hitems

omit hc in
/-- A loop comes with a trace and ends where the function is gone. -/
theorem tells_repeatCalled {body : Flow Unit}
    (hbody : ∀ s, story.Tells body s fun _ t => s.inFunction = true → s.Inside t)
    {base s : State} (hs : Called base s) (limit remaining : Nat) :
    story.Tells
      (Flow.repeatWhile (fun t => base.frames.size < t.frames.size) limit body remaining) s
      fun _ t => base.SameTurn t ∧ t.frames = base.frames := by
  refine (Flow.ensures_repeatWhile (fun t => story.Traced s t ∧ Called base t) ?_ ?_ remaining
    ⟨.refl s, hs⟩).mono ?_ fun _ _ ht => ht
  · intro t ht _
    exact ht.1
  · rintro t ⟨hst, ht⟩ htest
    have hsize := of_decide_eq_true htest
    refine Ensures.mono (hbody t) ?_ fun _ _ hu => hst.trans hu
    rintro _ u ⟨htu, hinside⟩
    exact ⟨hst.trans htu, ht.inside hsize (hinside (ht.inFunction hsize).1)⟩
  · rintro _ t ⟨⟨hst, ht⟩, htest⟩
    exact ⟨hst, ht.toSameTurn, ht.frames_eq (of_decide_eq_false htest)⟩

omit hc in
/-- A function comes with a trace and gives its frame back, if the body that is repeated comes
with one and stays in functions. -/
theorem chronicled_runBy {body : Flow Unit}
    (hbody : ∀ s, story.Tells body s fun _ t => s.inFunction = true → s.Inside t) (name : String)
    (arguments : List Argument) : story.chronicled.Holds (story.runBy body name arguments) := by
  refine holds_of_tells fun s => ?_
  unfold Story.runBy
  split
  · exact tells_throw
  next id _ =>
    cases hlocate : story.script.locate (.knot id) with
    | error fault => exact tells_throw
    | ok location =>
        unfold Story.knotAt
        have hid : location.knot = id := (Script.lands_of_locate hlocate).knot_eq
        cases hknot : story.script.knot? id with
        | none => exact tells_throw
        | some knot =>
            rw [← hid] at hknot
            show story.Tells (if knot.isFunction = true then _ else _) s _
            split
            · refine tells_get ?_
              show Ensures _ _ ((bindParameters knot arguments >>= _) (s.pushFrame _))
              rw [← bind_assoc]
              let frame := Frame.atLocation (.function (s.frames.size - 1)) knot.objects location
              have hsettle := ensures_settle (s := s) (t := s.pushFrame frame) hlocate hknot
                (.entered _) ⟨rfl, rfl, rfl, rfl⟩ rfl arguments
              refine Ensures.bind (Ensures.mono hsettle ?_ fun _ _ ht => ht)
              rintro _ t ⟨hst, hturn, hframes⟩
              refine Tells.after hst ?_
              have hcalled : Called s { t with returned := none } :=
                ⟨⟨hturn.choices, hturn.status, hturn.turn, hturn.taken⟩,
                  .inl ⟨frame, rfl, congrArg Stack.items hframes⟩⟩
              have hloop := tells_repeatCalled hbody hcalled story.config.stepLimit
                story.config.stepLimit
              have houter : story.Tells
                  (modifyGet fun s => (s.returned, { s with returned := none })) t
                  fun _ u => u = { t with returned := none } :=
                ⟨traced_of_still ⟨⟨rfl, rfl, rfl, rfl⟩, rfl, rfl⟩, rfl⟩
              refine houter.bind ?_
              rintro outer _ rfl
              refine hloop.bind ?_
              rintro _ u ⟨hsame, heq⟩
              refine ⟨traced_of_still ⟨⟨rfl, rfl, rfl, rfl⟩, rfl, rfl⟩, ?_, heq⟩
              exact ⟨hsame.choices, hsame.status, hsame.turn, hsame.taken⟩
            · exact tells_throw

end Steps

theorem chronicled_watchedFunction (story : Story) (halt : State → Bool) (depth : Nat) :
    ∀ name args, story.chronicled.Holds (story.watchedFunction halt depth name args) := by
  induction depth with
  | zero =>
      intro name args
      exact holds_throw fun s => .refl s
  | succ depth ih =>
      have hc := honours_chronicled ih
      exact chronicled_runBy fun s => (tells_step hc s).watched halt

theorem honours_watched (story : Story) (halt : State → Bool) :
    story.Honours (story.watchedFunction halt story.config.callDepth) story.chronicled :=
  honours_chronicled (story.chronicled_watchedFunction halt _)

theorem chronicled_callFunction (story : Story) :
    story.Honours story.callFunction story.chronicled := by
  have hc := story.honours_watched fun _ => false
  rw [watchedFunction_never] at hc
  exact hc

/-! ## Requests -/

/-- Whatever the host asks, but for another path, comes with a trace. -/
theorem keeps_traced (story : Story) (s : State) :
    story.Keeps (story.Traced s) fun _ t => story.Traced s t where
  fail _ h := h
  congr h hsame := h.trans (traced_of_still hsame.toStill)
  step h _ :=
    (Tells.after h (tells_step story.chronicled_callFunction _)).mono (fun _ _ ht => ht.1)
      fun _ _ ht => ht
  choose h hmem := (h.next (.made hmem)).trans (traced_of_still (still_fallBack_choose _ _))

theorem tells_startAt (story : Story) (path : String) (s : State) :
    story.Tells (story.startAt path) s fun _ _ => True := by
  unfold Story.startAt
  split
  · exact tells_throw
  next address _ =>
    cases hlocate : story.script.locate address with
    | error fault => exact tells_throw
    | ok location =>
        show story.Tells (story.knotAt location.knot >>= _) s _
        refine (tells_knotAt location.knot s).bind ?_
        rintro knot s ⟨rfl, hknot⟩
        let fresh := { s with choices := [], frames := ∅, store := s.store.withScopes [] }
        have hfresh : story.Traced s fresh :=
          (Happens.withdrawn.traced.next .halted).next (.quiet ⟨⟨rfl, rfl, rfl, rfl⟩, rfl, rfl⟩)
        show Ensures _ _ ((do
          bindAt address knot []
          modify (·.visitAll location.visits)
          modify fun t => { t with status := .running } : Flow Unit)
            (fresh.pushFrame (.atLocation .root knot.objects location)))
        have hsettle := ensures_settle (s := fresh)
          (t := fresh.pushFrame (.atLocation .root knot.objects location)) hlocate hknot
          (.entered _) ⟨rfl, rfl, rfl, rfl⟩ rfl []
        rw [← bind_assoc]
        refine Ensures.bind (Ensures.mono hsettle ?_ fun _ _ ht => hfresh.trans ht)
        rintro _ t ⟨ht, _⟩
        exact ⟨(hfresh.trans ht).next (.posed .running), trivial⟩

theorem tells_perform (story : Story) (request : Request) (s : State) :
    story.Tells (story.perform request) s fun _ _ => True := by
  cases hpath : request.isPath with
  | false =>
      exact ((story.keeps_traced s).ensures_perform (.refl s) hpath).mono
        (fun _ _ ht => ⟨ht, trivial⟩) fun _ _ ht => ht
  | true =>
      cases request with
      | choosePath path => exact story.tells_startAt path s
      | _ => cases hpath

/-! ## Starting -/

/-- Declares all lists and then all variables, with a way to call functions in place of the
story's own. -/
def declareUnder (story : Story) (run : Call) : Flow Unit := do
  let nodes := story.script.nodes
  (nodes.filterMap listOf?).forM declareList
  (nodes.filterMap globalOf?).forM fun g => do
    match ← g.init.value (story.host run) with
    | none => throw (.expression (.missingValue "global initializer"))
    | some value =>
      if g.constant then Flow.modifyStore (·.defineConstant g.name value)
      else Flow.modifyStore (·.defineGlobal g.name value)

theorem declareUnder_callFunction (story : Story) :
    story.declareUnder story.callFunction = story.declareAll := rfl

theorem chronicled_declareUnder {run : Call} (hc : story.Honours run story.chronicled) :
    story.chronicled.Holds (story.declareUnder run) := by
  have hstore (f : Store → Store) : story.chronicled.Holds (Flow.modifyStore f) :=
    holds_modify fun s => kept_of_still ⟨⟨rfl, rfl, rfl, rfl⟩, rfl, rfl⟩
  refine (holds_forM (fun l => ?_) _).bind fun _ => holds_forM (fun g => ?_) _
  · unfold declareList
    refine holds_get.bind fun s => (hc.holds (·.all.holds_ofValue _)).bind fun defined => ?_
    exact (hstore _).bind fun _ => hstore _
  · refine (hc.holds (·.holds_value g.init)).bind fun value => ?_
    cases value with
    | none => exact hc.holds (·.all.holds_throw (by simp))
    | some value =>
        dsimp only
        split
        · exact hstore _
        · exact hstore _

theorem chronicled_declareAll (story : Story) : story.chronicled.Holds story.declareAll := by
  rw [← declareUnder_callFunction]
  exact chronicled_declareUnder story.chronicled_callFunction

theorem tells_load (story : Story) (s : State) : story.Tells story.load s fun _ _ => True := by
  refine (tells_of_holds story.chronicled_declareAll).bind fun _ declared _ => ?_
  cases story.entryPoint? with
  | none => exact tells_throw
  | some path => exact story.tells_startAt path declared

theorem traced_of_start {s : State} (h : story.start = .ok s) :
    story.Traced (.ofSeed story.config.seed) s := by
  have hload := story.tells_load (.ofSeed story.config.seed)
  unfold Story.start at h
  split at h
  · next answer t hrun =>
      cases h
      have hrun' : story.load (.ofSeed story.config.seed) = .ok answer s := hrun
      rw [Tells, hrun'] at hload
      exact hload.1
  · cases h

/-! ## Histories -/

/-- What happened in the course of a run, latest first, and the state that the run came to.
The run is one of requests and steps as in `Reachable`. -/
inductive History (story : Story) : List Event → State → Prop where
  | start {log : List Event} {s : State} :
      story.start = .ok s → story.Trace (.ofSeed story.config.seed) log s → History story log s
  | request {log new : List Event} {s t : State} (request : Request) :
      History story log s → (story.perform request).Leaves s t → story.Trace s new t →
        History story (new ++ log) t
  | step {log new : List Event} {s t : State} (halt : State → Bool) :
      History story log s →
        (story.step (story.watchedFunction halt story.config.callDepth)).Leaves s t →
        story.Trace s new t → History story (new ++ log) t

theorem History.trace {log : List Event} {s : State} (h : story.History log s) :
    story.Trace (.ofSeed story.config.seed) log s := by
  induction h with
  | start _ htrace => exact htrace
  | request _ _ _ hnew ih => exact ih.trans hnew
  | step _ _ _ hnew ih => exact ih.trans hnew

theorem Tells.leaves {α : Type} {x : Flow α} {s t : State} {good : α → State → Prop}
    (h : story.Tells x s good) (hleaves : x.Leaves s t) : story.Traced s t := by
  rcases hleaves with ⟨a, hrun⟩ | ⟨fault, hrun⟩
  · rw [Tells, hrun] at h
    exact h.1
  · rw [Tells, hrun] at h
    exact h

/-- Every run has a history. -/
theorem Reachable.history {s : State} (h : story.Reachable s) : ∃ log, story.History log s := by
  induction h with
  | start hstart =>
      obtain ⟨log, htrace⟩ := traced_of_start hstart
      exact ⟨log, .start hstart htrace⟩
  | request request _ hleaves ih =>
      obtain ⟨log, hlog⟩ := ih
      obtain ⟨new, hnew⟩ := (story.tells_perform request _).leaves hleaves
      exact ⟨_, hlog.request request hleaves hnew⟩
  | step halt _ hleaves ih =>
      obtain ⟨log, hlog⟩ := ih
      obtain ⟨new, hnew⟩ := (tells_step (story.honours_watched halt) _).leaves hleaves
      exact ⟨_, hlog.step halt hleaves hnew⟩

end Story

end Skein
