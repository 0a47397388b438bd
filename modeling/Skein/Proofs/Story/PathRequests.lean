import Skein.Proofs.Story.Choosing

set_option autoImplicit false

/-!
# Story: requests for a path that fail

A request for a path drops the flow and starts another one.  What the path leads to is found before
anything is dropped, so a path that leads nowhere leaves the state as it is.  Parameters are bound
after it, and there are no arguments for them: a path that names a knot with parameters is refused
when the choices, the frames and the scopes are gone, with the status from before.
-/

namespace Skein

/-- The flow is dropped for one that starts at a location of a knot; nothing of it has been run or
counted, and the status is from before. -/
def State.adrift (s : State) (knot : Knot) (location : Location) : State :=
  { s with
    choices := []
    frames := .ofList [.atLocation .root knot.objects location]
    store := s.store.withScopes [] }

theorem Script.isArgumentCount_of_resolve {script : Script} {path : String}
    {current : Option KnotId} {fault : StoryFault}
    (h : script.resolve path current = .error fault) : fault.isArgumentCount = false := by
  simp only [Script.resolve] at h
  split at h
  · cases h
    rfl
  · split at h
    · cases h
    · cases h
      rfl

namespace Story

variable {story : Story} {path : String}

/-! ## Where a path leads -/

/-- A path leads to an address, and that to a location in a knot. -/
structure Finds (story : Story) (path : String) (address : Address) (knot : Knot)
    (location : Location) : Prop where
  resolved : story.script.resolve path none = .ok address
  located : story.script.locate address = .ok location
  found : story.script.knot? location.knot = some knot

/-- A path names a knot that has parameters. -/
structure WantsArguments (story : Story) (path : String) (id : KnotId) (knot : Knot) : Prop where
  resolved : story.script.resolve path none = .ok (.knot id)
  found : story.script.knot? id = some knot
  wanted : knot.parameters ≠ []

theorem WantsArguments.finds {id : KnotId} {knot : Knot} (h : story.WantsArguments path id knot) :
    story.Finds path (.knot id) knot (Script.locateKnot id knot) := by
  have hlocate : story.script.locate (.knot id) = .ok (Script.locateKnot id knot) := by
    have hknot : story.script.knot? (Address.knot id).knotId = some knot := h.found
    simp only [Script.locate, hknot]
    rfl
  refine ⟨h.resolved, hlocate, ?_⟩
  rw [(Script.lands_of_locate hlocate).knot_eq]
  exact h.found

/-- Where a path leads somewhere, the flow is dropped and parameters are bound after that. -/
theorem choosePath_of_finds {address : Address} {knot : Knot} {location : Location}
    (h : story.Finds path address knot location) (s : State) :
    story.choosePath path s =
      (do
        bindAt address knot []
        modify fun t => { t.visitAll location.visits with status := .running } : Flow Unit)
        (s.adrift knot location) := by
  unfold Story.choosePath Story.startAt
  rw [h.resolved]
  show (Flow.ofNavigation (story.script.locate address) >>= _) s = _
  rw [h.located]
  show (story.knotAt location.knot >>= _) s = _
  unfold Story.knotAt
  rw [h.found]
  rfl

/-- A path that leads nowhere changes nothing. -/
theorem choosePath_of_not_finds
    (h : ∀ address knot location, ¬story.Finds path address knot location) (s : State) :
    ∃ fault, story.choosePath path s = .error fault s ∧ fault.isArgumentCount = false := by
  unfold Story.choosePath Story.startAt
  cases hresolve : story.script.resolve path none with
  | error fault => exact ⟨fault, rfl, Script.isArgumentCount_of_resolve hresolve⟩
  | ok address =>
      show ∃ fault, (Flow.ofNavigation (story.script.locate address) >>= _) s = .error fault s ∧ _
      cases hlocate : story.script.locate address with
      | error fault => exact ⟨.navigation fault, rfl, rfl⟩
      | ok location =>
          show ∃ fault, (story.knotAt location.knot >>= _) s = .error fault s ∧ _
          unfold Story.knotAt
          cases hknot : story.script.knot? location.knot with
          | none => exact ⟨_, rfl, rfl⟩
          | some knot => exact absurd ⟨hresolve, hlocate, hknot⟩ (h address knot location)

/-! ## What a failure leaves -/

/-- A knot with parameters is refused when the flow has been dropped. -/
theorem choosePath_of_wantsArguments {id : KnotId} {knot : Knot}
    (h : story.WantsArguments path id knot) (s : State) :
    story.choosePath path s =
      .error (.structural (.argumentCount knot.name knot.parameters.length 0))
        (s.adrift knot (Script.locateKnot id knot)) := by
  rw [choosePath_of_finds h.finds]
  have hbind : bindAt (.knot id) knot [] =
      throw (.structural (.argumentCount knot.name knot.parameters.length 0)) := by
    have hlength : knot.parameters.length ≠ ([] : List Argument).length := by
      simpa using h.wanted
    rw [bindAt, bindParameters, if_neg hlength]
    rfl
  rw [hbind]
  rfl

/-- Where no arguments are wanted, a path that leads somewhere is followed. -/
theorem exists_choosePath {address : Address} {knot : Knot} {location : Location}
    (h : story.Finds path address knot location)
    (hnone : ∀ id knot, ¬story.WantsArguments path id knot) (s : State) :
    ∃ t, story.choosePath path s = .ok () t := by
  have hbind : bindAt address knot [] = pure () := by
    cases address with
    | stitch _ _ => rfl
    | gather _ _ => rfl
    | knot id =>
        have hknot : story.script.knot? id = some knot := by
          rw [← h.found, (Script.lands_of_locate h.located).knot_eq]
          rfl
        have hparameters : knot.parameters = [] := by
          by_contra hsome
          exact hnone id knot ⟨h.resolved, hknot, hsome⟩
        rw [bindAt, bindParameters, hparameters]
        rfl
  rw [choosePath_of_finds h, hbind]
  exact ⟨_, rfl⟩

theorem eq_of_choosePath_error (hnone : ∀ id knot, ¬story.WantsArguments path id knot)
    {s t : State} {fault : StoryFault} (hfails : story.choosePath path s = .error fault t) :
    fault.isArgumentCount = false ∧ t = s := by
  by_cases hfinds : ∃ address knot location, story.Finds path address knot location
  · obtain ⟨address, knot, location, hfinds⟩ := hfinds
    obtain ⟨u, hdone⟩ := exists_choosePath hfinds hnone s
    rw [hdone] at hfails
    cases hfails
  · obtain ⟨fault', hrun, hcount⟩ := choosePath_of_not_finds
      (fun address knot location h => hfinds ⟨address, knot, location, h⟩) s
    rw [hrun] at hfails
    cases hfails
    exact ⟨hcount, rfl⟩

theorem lineBy_of_not_canContinue {body : Flow Unit} {s : State} (h : s.canContinue = false) :
    story.lineBy body s = .error .cannotContinue s := by
  have htest : ¬s.canContinue = true := by simp [h]
  exact congrFun (if_neg htest) s

theorem chooseIndex_of_choices_eq_nil {s : State} (h : s.choices = []) (index : Nat) :
    chooseIndex index s = .error (.invalidChoice index 0) s := by
  have hshown : s.visibleChoices = [] := by rw [State.visibleChoices, h, List.filter_nil]
  have hlength : ¬(s.status = .atChoice ∧ index < s.visibleChoices.length) := by simp [hshown]
  rw [chooseIndex_of_not_shown hlength, hshown, List.length_nil]

/-- A request for a path that fails leaves the status and the visits as they were, and it leaves
the whole state as it was unless the path names a knot with parameters.  One that names such a knot
always fails, because of the number of arguments, and leaves a state that differs in its choices,
its frames and its scopes: no choice is left to be made, the only frame is at the start of that
knot, and the only scope is empty.  If there was nothing to read before, there is nothing now. -/
theorem flow_of_failed_choosePath (story : Story) (path : String) (s : State) :
    (∀ fault t, story.choosePath path s = .error fault t →
      t.status = s.status ∧ t.visits = s.visits ∧
        ((∀ id knot, ¬story.WantsArguments path id knot) →
          fault.isArgumentCount = false ∧ t = s)) ∧
    ∀ id knot, story.WantsArguments path id knot →
      ∃ t, story.choosePath path s =
          .error (.structural (.argumentCount knot.name knot.parameters.length 0)) t ∧
        t = s.adrift knot (Script.locateKnot id knot) ∧ t.store.scopes = [{}] ∧
        (∀ index, chooseIndex index t = .error (.invalidChoice index 0) t) ∧
        (s.canContinue = false → story.continueLine t = .error .cannotContinue t) := by
  refine ⟨fun fault t hfails => ?_, fun id knot hwants => ?_⟩
  · by_cases hwants : ∃ id knot, story.WantsArguments path id knot
    · obtain ⟨id, knot, hwants⟩ := hwants
      rw [choosePath_of_wantsArguments hwants] at hfails
      cases hfails
      exact ⟨rfl, rfl, fun hnone => absurd hwants (hnone id knot)⟩
    · have hnone (id : KnotId) (knot : Knot) : ¬story.WantsArguments path id knot :=
        fun h => hwants ⟨id, knot, h⟩
      obtain ⟨hcount, rfl⟩ := eq_of_choosePath_error hnone hfails
      exact ⟨rfl, rfl, fun _ => ⟨hcount, rfl⟩⟩
  · refine ⟨_, choosePath_of_wantsArguments hwants s, rfl, rfl,
      chooseIndex_of_choices_eq_nil rfl, fun hnothing => ?_⟩
    have hstill : (s.adrift knot (Script.locateKnot id knot)).canContinue = false := hnothing
    exact lineBy_of_not_canContinue hstill

/-- A story with a choice, and a knot with a parameter that can be asked for by its path. -/
def vestibule : Story where
  script :=
    { knots :=
        [{ name := "start", id := ⟨1⟩, parameters := []
           objects :=
             [.choice ⟨3⟩ [⟨[.text "Knock"], [], false, [], false, false⟩], .text "Behind."]
           stitches := [], gathers := [], isFunction := false },
         { name := "hall", id := ⟨2⟩, parameters := [⟨"guest", false⟩], objects := [.text "Hall."]
           stitches := [], gathers := [], isFunction := false }]
      sound := rfl }

/-- The vestibule when its choice is on offer. -/
def vestibuleAtChoice (start : State) : State := (vestibule.serve (.ask .continueLine)).after start

theorem attainable_vestibuleAtChoice {start : State} (h : vestibule.start = .ok start) :
    vestibule.Attainable (vestibuleAtChoice start) :=
  (Attainable.start h).next (.call (.ask .continueLine) (Flow.leaves_after _ start))

theorem wantsArguments_hall :
    vestibule.WantsArguments "hall" ⟨1⟩
      { name := "hall", id := ⟨2⟩, parameters := [⟨"guest", false⟩], objects := [.text "Hall."]
        stitches := [], gathers := [], isFunction := false } where
  resolved := by decide +kernel
  found := rfl
  wanted := List.cons_ne_nil _ _

/-- A path that leads nowhere leaves the choice to be made. -/
theorem flow_of_failed_choosePath_attic :
    ∃ s t, vestibule.Attainable s ∧ s.status = .atChoice ∧
      (∀ id knot, ¬vestibule.WantsArguments "attic" id knot) ∧
      (∃ fault, vestibule.choosePath "attic" s = .error fault s) ∧ chooseIndex 0 s = .ok () t := by
  have hrun : (vestibule.start.toOption.map fun start =>
      let s := vestibuleAtChoice start
      decide (s.status = .atChoice ∧ (vestibule.choosePath "attic").answer? s = none ∧
        (chooseIndex 0).answer? s = some ())) = some true := by
    decide +kernel
  obtain ⟨start, hstart, hstate⟩ := exists_start hrun
  obtain ⟨hstatus, hnothing, hmade⟩ := of_decide_eq_true hstate
  have hnone (id : KnotId) (knot : Knot) : ¬vestibule.WantsArguments "attic" id knot := by
    intro h
    have hunknown : vestibule.script.resolve "attic" none =
        .error (.navigation (.unknownTarget "attic")) := by decide +kernel
    have hresolved := h.resolved
    rw [hunknown] at hresolved
    cases hresolved
  refine ⟨_, _, attainable_vestibuleAtChoice hstart, hstatus, hnone, ?_,
    Flow.of_answer?_eq_some hmade⟩
  cases hrequest : vestibule.choosePath "attic" (vestibuleAtChoice start) with
  | ok _ t =>
      rw [Flow.answer?, hrequest] at hnothing
      cases hnothing
  | error fault t =>
      obtain ⟨_, _, hsame⟩ :=
        (flow_of_failed_choosePath vestibule "attic" (vestibuleAtChoice start)).1 fault t hrequest
      exact ⟨fault, by rw [(hsame hnone).2]⟩

/-- The path of the hall is refused, and with it the choice is gone that could be made before: the
vestibule still says that it is at a choice, there is nothing to read, and nothing can be chosen. -/
theorem choosePath_hall_loses_choice :
    ∃ s t u fault, vestibule.Attainable s ∧ s.status = .atChoice ∧ s.canContinue = false ∧
      chooseIndex 0 s = .ok () u ∧ vestibule.choosePath "hall" s = .error fault t ∧
      s.kinds = [] ∧ t.kinds = [.root] ∧ s.visibleChoices.length = 1 ∧ t.choices = [] ∧
      t.status = .atChoice ∧ vestibule.continueLine t = .error .cannotContinue t ∧
      ∀ index, chooseIndex index t = .error (.invalidChoice index 0) t := by
  have hrun : (vestibule.start.toOption.map fun start =>
      let s := vestibuleAtChoice start
      decide (s.status = .atChoice ∧ s.canContinue = false ∧ s.kinds = [] ∧
        s.visibleChoices.length = 1 ∧ (chooseIndex 0).answer? s = some ())) = some true := by
    decide +kernel
  obtain ⟨start, hstart, hstate⟩ := exists_start hrun
  obtain ⟨hstatus, hnothing, hkinds, hshown, hmade⟩ := of_decide_eq_true hstate
  refine ⟨_, _, _, _, attainable_vestibuleAtChoice hstart, hstatus, hnothing,
    Flow.of_answer?_eq_some hmade, choosePath_of_wantsArguments wantsArguments_hall _, hkinds, rfl,
    hshown, rfl, hstatus, ?_, chooseIndex_of_choices_eq_nil rfl⟩
  exact lineBy_of_not_canContinue hnothing

end Story

end Skein
