import Skein.Proofs.Story.Reachability

set_option autoImplicit false

/-!
# Story: flow is blind to its output

Running content prints, but it never looks at what has been printed.  So a step from two states
that differ in their output only comes out alike, and it does the same to both outputs: a relation
between outputs that survives each thing that content can print survives the step.  Lines are
ended for good only where a flow comes to rest, and a function never does.
-/

namespace Skein

open Outcome

/-! ## Outputs -/

namespace Output

/-- A relation between two outputs that survives whatever content prints on both. -/
structure Stable (rel : Output → Output → Prop) : Prop where
  pushText : ∀ {o p : Output} (text : String), rel o p → rel (o.pushText text) (p.pushText text)
  pushTag : ∀ {o p : Output} (tag : String), rel o p → rel (o.pushTag tag) (p.pushTag tag)
  lineBreak : ∀ {o p : Output}, rel o p → rel o.lineBreak p.lineBreak
  glue : ∀ {o p : Output}, rel o p → rel o.glue p.glue

/-- A relation between two outputs that survives the end of a flow. -/
def Closing (rel : Output → Output → Prop) : Prop := ∀ o p, rel o p → rel o.flush p.flush

end Output

/-- Whether a node starts text. -/
def Node.startsText : Node → Bool
  | .text _ | .interpolation _ => true
  | _ => false

namespace Frame

/-- What a step would run is what a look ahead sees. -/
theorem peek?_of_next? {f g : Frame} {cursor : Cursor} {node : Node}
    (hnext : f.next? = some (cursor, g)) (hnode : cursor.peek? = some node) :
    f.peek? = some node := by
  obtain ⟨⟨found, outer⟩, hfound, hpair⟩ := Option.map_eq_some_iff.mp hnext
  obtain rfl : found = cursor := (Prod.mk.inj hpair).1
  unfold peek?
  clear hnext hpair
  generalize f.cursors = cursors at hfound
  induction cursors with
  | nil => cases hfound
  | cons first rest ih =>
      rw [nextCursor?] at hfound
      rw [List.findSome?_cons]
      split at hfound
      · next hdone =>
          rw [Cursor.peek?, if_pos hdone]
          exact ih hfound
      · cases hfound
        rw [hnode]

theorem peek?_of_next?_eq_none {f : Frame} (hnext : f.next? = none) : f.peek? = none := by
  have hnone := Option.map_eq_none_iff.mp hnext
  unfold peek?
  clear hnext
  generalize f.cursors = cursors at hnone
  induction cursors with
  | nil => rfl
  | cons first rest ih =>
      rw [nextCursor?] at hnone
      rw [List.findSome?_cons]
      split at hnone
      · next hdone =>
          rw [Cursor.peek?, if_pos hdone]
          exact ih hnone
      · cases hnone

end Frame

namespace State

/-! ## States with another output -/

/-- The state with another output and other tags of the line read last. -/
def printing (s : State) (output : Output) (tags : List String) : State :=
  { s with output := output, lineTags := tags }

/-- The second state is the first with an output that is in a relation to the first one's. -/
def Abreast (rel : Output → Output → Prop) (s t : State) : Prop :=
  ∃ output tags, rel s.output output ∧ t = s.printing output tags

variable {rel : Output → Output → Prop} {s t : State}

theorem random_printing (s : State) (output : Output) (tags : List String) (low high : Int64) :
    (s.printing output tags).random low high =
      ((s.random low high).1, (s.random low high).2.printing output tags) := by
  have hgenerator : (s.printing output tags).generator = s.generator := rfl
  unfold State.random
  rw [hgenerator]
  generalize s.generator.between low high = drawn
  rfl

theorem nextGroup_printing (s : State) (output : Output) (tags : List String) (id : NodeId)
    (kind : SequenceKind) (groups : Nat) :
    (s.printing output tags).nextGroup id kind groups =
      ((s.nextGroup id kind groups).1, (s.nextGroup id kind groups).2.printing output tags) := by
  have hgenerator : (s.printing output tags).generator = s.generator := rfl
  have hsequences : (s.printing output tags).sequences = s.sequences := rfl
  unfold State.nextGroup
  rw [hgenerator, hsequences]
  generalize Progress.pick kind groups ((s.sequences.get? id).getD {}) s.generator = picked
  rfl

theorem Abreast.markTaken (h : s.Abreast rel t) (knot : KnotId) (block : NodeId) (entry : Nat) :
    (s.markTaken knot block entry).Abreast rel (t.markTaken knot block entry) := by
  obtain ⟨output, tags, hrel, rfl⟩ := h
  have htaken : (s.printing output tags).isTaken knot block entry = s.isTaken knot block entry :=
    rfl
  unfold State.markTaken
  rw [htaken]
  split
  · exact ⟨output, tags, hrel, rfl⟩
  · exact ⟨output, tags, hrel, rfl⟩

theorem Abreast.fallBack (h : s.Abreast rel t) (choice : PendingChoice) :
    (s.fallBack choice).Abreast rel (t.fallBack choice) := by
  obtain ⟨output, tags, hrel, hmark⟩ := h.markTaken choice.knot choice.block choice.entry
  refine ⟨output, tags, hrel, ?_⟩
  unfold State.fallBack State.takeChoice
  rw [hmark]
  rfl

theorem Abreast.visitAll (h : s.Abreast rel t) (ids : List NodeId) :
    (s.visitAll ids).Abreast rel (t.visitAll ids) := by
  induction ids generalizing s t with
  | nil => exact h
  | cons id rest ih =>
      obtain ⟨output, tags, hrel, rfl⟩ := h
      exact ih ⟨output, tags, hrel, rfl⟩

theorem Abreast.past (h : s.Abreast rel t) (story : Story) (cursor : Cursor) (frame : Frame) :
    (story.past s cursor frame).Abreast rel (story.past t cursor frame) := by
  have hmoved : State.Abreast rel { s with frames := s.frames.mapTop fun _ => frame }
      { t with frames := t.frames.mapTop fun _ => frame } := by
    obtain ⟨output, tags, hout, rfl⟩ := h
    exact ⟨output, tags, hout, rfl⟩
  unfold Story.past Story.arrive
  split
  · split
    · exact hmoved.visitAll [_]
    · exact hmoved
  · exact hmoved

section Closing

variable (hclosing : Output.Closing rel)

include hclosing

theorem Abreast.finish (h : s.Abreast rel t) : s.finish.Abreast rel t.finish := by
  obtain ⟨output, tags, hrel, rfl⟩ := h
  exact ⟨_, tags, hclosing _ _ hrel, rfl⟩

theorem Abreast.rest (h : s.Abreast rel t) : s.rest.Abreast rel t.rest := by
  obtain ⟨output, tags, hrel, rfl⟩ := h
  have hclear : s.clearFlow.Abreast rel (s.printing output tags).clearFlow :=
    ⟨_, tags, hclosing _ _ hrel, rfl⟩
  have hvisible : (s.printing output tags).clearFlow.visibleChoices =
      s.clearFlow.visibleChoices := rfl
  have hchoices : (s.printing output tags).clearFlow.choices = s.clearFlow.choices := rfl
  unfold State.rest
  dsimp only
  rw [hvisible, hchoices]
  split
  · split
    · exact hclear.fallBack _
    · exact ⟨_, tags, hclosing _ _ hrel, rfl⟩
  · exact ⟨_, tags, hclosing _ _ hrel, rfl⟩

theorem Abreast.endFlow (h : s.Abreast rel t) : s.endFlow.Abreast rel t.endFlow := by
  obtain ⟨output, tags, hrel, rfl⟩ := h
  have hin : (s.printing output tags).inThread = s.inThread := rfl
  unfold State.endFlow
  rw [hin]
  split
  · exact ⟨output, tags, hrel, rfl⟩
  · exact Abreast.rest hclosing ⟨output, tags, hrel, rfl⟩

end Closing

/-- Leaving a frame that has run out ends the flow only outside of functions. -/
theorem Abreast.finishFrame (hclosing : s.inFunction = false → Output.Closing rel)
    (h : s.Abreast rel t) : s.finishFrame.Abreast rel t.finishFrame := by
  obtain ⟨output, tags, hrel, rfl⟩ := h
  have hkind : (s.printing output tags).topKind? = s.topKind? := rfl
  have hdrop : s.dropFrame.Abreast rel (s.printing output tags).dropFrame :=
    ⟨output, tags, hrel, rfl⟩
  unfold State.finishFrame
  dsimp only
  rw [hkind]
  split
  · next hroot => exact hdrop.rest (hclosing (by rw [inFunction, hroot]; rfl))
  · exact ⟨output, tags, hrel, rfl⟩
  · exact hdrop

end State

/-! ## Evaluation -/

namespace Story

/-- Active states that differ in their outputs only, and in these as stated. -/
def abreast (rel : Output → Output → Prop) : Coupling StoryFault State where
  same s t := s.Active ∧ s.Abreast rel t
  failed _ _ _ := True

variable {rel : Output → Output → Prop}

open Coupling

theorem abreast_throw {α : Type} (fault : StoryFault) :
    (abreast rel).Holds (throw fault : Flow α) := holds_throw fun _ _ _ => trivial

theorem abreast_callExternal (name : String) (args : List Value) :
    (abreast rel).Holds (callExternal name args) := by
  refine holds_get_bind ?_ fun s => ?_
  · rintro s _ ⟨_, _, _, _, rfl⟩
    rfl
  · cases s.externals.call name args with
    | error fault => exact abreast_throw _
    | ok called =>
        refine Holds.bind (holds_pure called) fun (answer, externals) => ?_
        refine Holds.bind (holds_modify ?_) fun _ => holds_pure _
        rintro s _ ⟨hs, output, tags, hrel, rfl⟩
        have hsteady : s.SameFlow { s with externals := externals } :=
          ⟨⟨rfl, rfl, rfl, rfl⟩, rfl, rfl, rfl⟩
        exact ⟨hsteady.active hs, output, tags, hrel, rfl⟩

/-- Evaluating expressions is blind to the output if the functions that they call are. -/
theorem couples_abreast (story : Story) {run : Call}
    (hrun : ∀ name args, (abreast rel).Holds (run name args)) :
    story.Couples run (abreast rel) where
  host :=
    { fail := fun _ _ _ _ => trivial
      looks := by
        rintro s _ ⟨_, _, _, _, rfl⟩
        exact ⟨rfl, rfl, rfl, rfl, rfl, rfl, rfl⟩
      set := by
        rintro s _ name value store ⟨hs, output, tags, hrel, rfl⟩ hset
        have hshape := Store.outerShape_of_shape (Store.shape_of_set hset)
        exact ⟨(State.sameFlow_withStore hshape).active hs, output, tags, hrel, rfl⟩
      declare := by
        rintro s _ name value ⟨hs, output, tags, hrel, rfl⟩
        have hsteady : s.SameFlow { s with store := s.store.declareTemporary name value } :=
          State.sameFlow_withStore rfl
        exact ⟨hsteady.active hs, output, tags, hrel, rfl⟩
      random := by
        rintro low high s _ ⟨hs, output, tags, hrel, rfl⟩
        have hsteady : s.SameFlow (s.random low high).2 := ⟨⟨rfl, rfl, rfl, rfl⟩, rfl, rfl, rfl⟩
        have hrandom := s.random_printing output tags low high
        exact ⟨(congrArg Prod.fst hrandom).symm, hsteady.active hs, output, tags, hrel,
          congrArg Prod.snd hrandom⟩
      reseed := by
        rintro seed s _ ⟨hs, output, tags, hrel, rfl⟩
        have hsteady : s.SameFlow (s.reseed seed) := ⟨⟨rfl, rfl, rfl, rfl⟩, rfl, rfl, rfl⟩
        exact ⟨hsteady.active hs, output, tags, hrel, rfl⟩
      callStory := hrun
      callExternal := abreast_callExternal }
  fail _ _ _ _ := trivial
  currentKnot? := by
    rintro s _ ⟨_, _, _, _, rfl⟩
    rfl
  nextGroup := by
    rintro id kind groups s _ ⟨hs, output, tags, hrel, rfl⟩
    have hsteady : s.SameFlow (s.nextGroup id kind groups).2 :=
      ⟨⟨rfl, rfl, rfl, rfl⟩, rfl, rfl, rfl⟩
    have hgroup := s.nextGroup_printing output tags id kind groups
    exact ⟨(congrArg Prod.fst hgroup).symm, hsteady.active hs, output, tags, hrel,
      congrArg Prod.snd hgroup⟩
  addAlias := by
    rintro name target s _ ⟨hs, output, tags, hrel, rfl⟩
    have hsteady : s.SameFlow { s with store := s.store.addAlias name target } :=
      State.sameFlow_withStore rfl
    exact ⟨hsteady.active hs, output, tags, hrel, rfl⟩

end Story

/-! ## Computations -/

namespace Flow

variable {α β : Type} {rel : Output → Output → Prop}

/-- From the two states the computation comes out alike, and it leaves states that differ in their
outputs only, and in these as stated. -/
def Blind (rel : Output → Output → Prop) (x : Flow α) (s t : State) : Prop :=
  Alike (fun _ => State.Abreast rel) (fun _ _ _ => True) (x s) (x t)

theorem blind_throw (fault : StoryFault) (s t : State) :
    (throw fault : Flow α).Blind rel s t := ⟨rfl, trivial⟩

theorem blind_get {f : State → Flow β} {s t : State} (hsame : f t = f s)
    (h : (f s).Blind rel s t) : (get >>= f).Blind rel s t := by
  show Alike _ _ (f s s) (f t t)
  rw [hsame]
  exact h

theorem blind_modify {f : State → State} {g : Unit → Flow β} {s t : State}
    (h : (g ()).Blind rel (f s) (f t)) : (modify f >>= g).Blind rel s t := h

theorem blind_modifyGet {f : State → α × State} {g : α → Flow β} {s t : State}
    (hsame : (f t).1 = (f s).1) (h : (g (f s).1).Blind rel (f s).2 (f t).2) :
    (modifyGet f >>= g).Blind rel s t := by
  show Alike _ _ (g (f s).1 (f s).2) (g (f t).1 (f t).2)
  rw [hsame]
  exact h

/-- A first part is followed by a second part, from where the first one is known to come out. -/
theorem Blind.bind {x : Flow α} {f : α → Flow β} {s t : State} {good : α → State → Prop}
    (hx : x.Blind rel s t) (hgood : x.Reaches s good)
    (hf : ∀ a u v, good a u → u.Abreast rel v → (f a).Blind rel u v) :
    (x >>= f).Blind rel s t := by
  refine Alike.bind ((Alike.and_ensures hx hgood).mono ?_ fun _ _ _ h => h)
  rintro a u v ⟨hu, huv⟩
  exact hf a u v hu huv

/-- Where the computation succeeds from one of the states, it does so from the other. -/
theorem Blind.of_eq_ok {x : Flow α} {s t v : State} {a : α} (h : x.Blind rel s t)
    (hrun : x t = .ok a v) : ∃ u, x s = .ok a u ∧ u.Abreast rel v := by
  unfold Blind at h
  rw [hrun] at h
  cases hs : x s with
  | ok b u =>
      rw [hs] at h
      exact ⟨u, by rw [h.1], h.2⟩
  | error fault u =>
      rw [hs] at h
      exact h.elim

theorem Blind.eq_ok {x : Flow α} {s t u : State} {a : α} (h : x.Blind rel s t)
    (hrun : x s = .ok a u) : ∃ v, x t = .ok a v ∧ u.Abreast rel v := by
  unfold Blind at h
  rw [hrun] at h
  cases ht : x t with
  | ok b v =>
      rw [ht] at h
      exact ⟨v, by rw [h.1], h.2⟩
  | error fault v =>
      rw [ht] at h
      exact h.elim

/-- A loop is blind if its test and its body are. -/
theorem blind_repeatWhile {test : State → Bool} {limit : Nat} {body : Flow Unit}
    {good : State → Prop} (htest : ∀ {s t}, s.Abreast rel t → test t = test s)
    (hbody : ∀ {s t}, good s → test s = true → s.Abreast rel t →
      body.Blind rel s t ∧ body.Reaches s fun _ u => good u)
    (remaining : Nat) {s t : State} (hs : good s) (hst : s.Abreast rel t) :
    (repeatWhile test limit body remaining).Blind rel s t := by
  induction remaining generalizing s t with
  | zero =>
      refine blind_get (by rw [htest hst]) ?_
      split
      · exact blind_throw _ _ _
      · exact ⟨rfl, hst⟩
  | succ remaining ih =>
      refine blind_get (by rw [htest hst]) ?_
      split
      · next htrue =>
          obtain ⟨hblind, hreaches⟩ := hbody hs htrue hst
          exact hblind.bind hreaches fun _ u v hu huv => ih hu huv
      · exact ⟨rfl, hst⟩

end Flow

namespace Story

open Skein.Flow

variable {story : Story} {run : Call} {rel : Output → Output → Prop}

section Steps

variable (hk : story.Couples run (abreast rel)) (hc : story.Honours run steady)

include hk

omit hk in
theorem blind_of_holds {α : Type} {x : Flow α} {s t : State} (hx : (abreast rel).Holds x)
    (hs : s.Active) (hst : s.Abreast rel t) : x.Blind rel s t :=
  (hx.alike s t ⟨hs, hst⟩).mono (fun _ _ _ h => h.2) fun _ _ _ h => h

include hc

/-- What looks at the state and changes it without moving is followed by more. -/
theorem blind_bind {α β : Type} {x : Flow α} {f : α → Flow β} {s t : State}
    (hx : ∀ {k : Coupling StoryFault State}, story.Couples run k → k.Holds x) (hs : s.Active)
    (hst : s.Abreast rel t)
    (hf : ∀ a u v, u.Active → s.SameFlow u → u.Abreast rel v → (f a).Blind rel u v) :
    (x >>= f).Blind rel s t := by
  refine (blind_of_holds (hx hk) hs hst).bind (reaches_of_steady (hc.holds hx) hs) ?_
  intro a u v hsu huv
  exact hf a u v (hsu.active hs) hsu huv

/-! ## Diverts -/

omit hc in
/-- Binding parameters and counting visits is the end of every move to a place. -/
theorem blind_settle {s t : State} (hs : s.Active) (hst : s.Abreast rel t) (address : Address)
    (knot : Knot) (arguments : List Argument) (location : Location) :
    Flow.Blind rel (do
      bindAt address knot arguments
      modify (·.visitAll location.visits)) s t := by
  refine blind_of_holds ((hk.all.holds_bindAt address knot arguments).bind fun _ => ?_) hs hst
  refine Coupling.holds_modify ?_
  rintro s t ⟨hs, hst⟩
  exact ⟨(State.kept_visitAll State.steady_visit s _ hs).active hs, hst.visitAll _⟩

omit hk hc in
theorem blind_relocate {s t : State} (hst : s.Abreast rel t) (knot : Knot) (location : Location) :
    (relocate knot location).Blind rel s t := by
  obtain ⟨output, tags, hrel, rfl⟩ := hst
  show Alike _ _
    ((if s.frames.isEmpty then throw (.navigation .emptyFrameStack)
      else set { s with frames := s.frames.mapTop (·.relocate knot.objects location) } :
        Flow Unit) s)
    ((if s.frames.isEmpty then throw (.navigation .emptyFrameStack)
      else set { s.printing output tags with
        frames := s.frames.mapTop (·.relocate knot.objects location) } :
        Flow Unit) (s.printing output tags))
  split
  · exact ⟨rfl, trivial⟩
  · exact ⟨rfl, output, tags, hrel, rfl⟩

/-- Only a divert that ends the flow ends lines for good. -/
theorem blind_goto {s t : State} (hs : s.Active) (hst : s.Abreast rel t)
    (hclosing : Output.Closing rel) (target : String) (args : List Expression) :
    (story.goto run target args).Blind rel s t := by
  unfold Story.goto
  split
  · exact ⟨rfl, hst.finish hclosing⟩
  split
  · exact ⟨rfl, hst.endFlow hclosing⟩
  refine blind_get (by obtain ⟨_, _, _, rfl⟩ := hst; rfl) ?_
  refine blind_bind hk hc (·.all.holds_find target) hs hst
    fun (address, location) u v hu _ huv => ?_
  refine blind_bind hk hc (·.holds_divertArguments args) hu huv fun arguments u v hu _ huv => ?_
  refine blind_bind hk hc (·.all.holds_knotAt _) hu huv fun knot u v hu _ huv => ?_
  refine Blind.bind (blind_relocate huv knot location) (reaches_relocate hu knot location) ?_
  intro _ w x huw hwx
  have hw := huw.active hu
  extract_lets settle
  split
  · refine blind_modify (blind_settle hk ?_ ?_ address knot arguments location)
    · have hsteady : w.SameFlow { w with store := w.store.resetScope } :=
        State.sameFlow_withStore rfl
      exact hsteady.active hw
    · obtain ⟨output, tags, hrel, rfl⟩ := hwx
      exact ⟨output, tags, hrel, rfl⟩
  · exact blind_settle hk hw hwx address knot arguments location

theorem blind_call {s t : State} (hs : s.Active) (hst : s.Abreast rel t)
    (hout : s.inFunction = false) {kind : Nat → FrameKind}
    (hkind : ∀ depth, (kind depth).enteredFrom? = some depth) (target : String)
    (args : List Expression) : (story.call run kind target args).Blind rel s t := by
  unfold Story.call
  refine blind_bind hk hc (·.all.holds_find target) hs hst
    fun (address, location) u v hu hsu huv => ?_
  refine blind_bind hk hc (·.holds_divertArguments args) hu huv
    fun arguments v' w hv huv' hvw => ?_
  refine blind_bind hk hc (·.all.holds_knotAt _) hv hvw fun knot w' x hw hvw' hwx => ?_
  have hin : w'.inFunction = false := by
    rw [((hsu.trans huv').trans hvw').sameBelow.inFunction_eq, hout]
  refine blind_modify (blind_settle hk ?_ ?_ address knot arguments location)
  · refine hw.pushFrame (hkind _) ?_
    intro hfunction
    rw [hin] at hfunction
    cases hfunction
  · obtain ⟨output, tags, hrel, rfl⟩ := hwx
    exact ⟨output, tags, hrel, rfl⟩

/-- Outside of functions a divert may end the flow; in a function none is carried out. -/
theorem blind_divert {s t : State} (hs : s.Active) (hst : s.Abreast rel t)
    (hclosing : s.inFunction = false → Output.Closing rel) (d : Divert) :
    (story.divert run d).Blind rel s t := by
  have hdrop : s.dropFrame.Abreast rel t.dropFrame := by
    obtain ⟨output, tags, hrel, rfl⟩ := hst
    exact ⟨output, tags, hrel, rfl⟩
  unfold Story.divert
  split
  · unfold Story.leaveTunnel
    refine blind_get (by obtain ⟨_, _, _, rfl⟩ := hst; rfl) ?_
    split
    · next hin =>
        refine blind_modify ?_
        split
        · exact blind_goto hk hc (hs.dropFrame FrameKind.isTunnel hin rfl) hdrop
            (hclosing (State.inFunction_of_inTunnel hin)) _ _
        · exact ⟨rfl, hdrop⟩
    · exact blind_throw _ _ _
  · refine blind_get (by obtain ⟨_, _, _, rfl⟩ := hst; rfl) ?_
    split
    · exact blind_throw _ _ _
    next hin =>
      have hout : s.inFunction = false := by simpa using hin
      split
      · exact blind_call hk hc hs hst hout (fun _ => rfl) _ _
      · exact blind_call hk hc hs hst hout (fun _ => rfl) _ _
      · exact blind_goto hk hc hs hst (hclosing hout) _ _

/-! ## Offers -/

theorem blind_offerEntry {s t : State} (hs : s.Active) (hst : s.Abreast rel t) (block : Block)
    (place : Nat) (entry : Entry) : (story.offerEntry run block place entry).Blind rel s t := by
  unfold Story.offerEntry
  refine blind_get (by obtain ⟨_, _, _, rfl⟩ := hst; rfl) ?_
  split
  · exact ⟨rfl, hst⟩
  refine blind_bind hk hc (·.holds_allHold _) hs hst fun holds u v hu _ huv => ?_
  split
  · refine blind_bind hk hc (·.holds_choiceText entry) hu huv fun rendered u v _ _ huv => ?_
    obtain ⟨output, tags, hrel, rfl⟩ := huv
    exact ⟨rfl, output, tags, hrel, rfl⟩
  · exact ⟨rfl, huv⟩

theorem blind_offerEntries {s t : State} (hs : s.Active) (hst : s.Abreast rel t) {block : Block}
    (hresume : isResumable (block.resume.map (·.1.kind)) = true) (place : Nat)
    (entries : List Entry) : (story.offerEntries run block place entries).Blind rel s t := by
  induction entries generalizing place s t with
  | nil => exact ⟨rfl, hst⟩
  | cons entry rest ih =>
      refine (blind_offerEntry hk hc hs hst block place entry).bind
        (reaches_offerEntry hc hs hresume place entry) ?_
      intro _ u v hsu huv
      exact ih hsu.toActive huv _

theorem blind_offer {s t : State} (hs : s.Active) (hst : s.Abreast rel t)
    (hclosing : s.inFunction = false → Output.Closing rel) (knot : KnotId) (id : NodeId)
    (entries : List Entry) : (story.offer run knot id entries).Blind rel s t := by
  unfold Story.offer
  refine blind_get (by obtain ⟨_, _, _, rfl⟩ := hst; rfl) ?_
  split
  · exact blind_throw _ _ _
  next hin =>
    have hout : s.inFunction = false := by simpa using hin
    have hresume :
        isResumable ((resumePoint s.frames.items s.store.scopes).map (·.1.kind)) = true :=
      isResumable_resumePoint hs.nonempty hs.frames (hs.isFunction_eq_false hout)
    refine (blind_offerEntries hk hc hs hst hresume 0 entries).bind
      (reaches_offerEntries hc hs hresume 0 entries) ?_
    intro _ u v hsu huv
    dsimp only
    split
    · obtain ⟨output, tags, hrel, rfl⟩ := huv
      refine blind_get rfl ?_
      split
      · exact blind_throw _ _ _
      · exact ⟨rfl, output, tags, hrel, rfl⟩
    · exact ⟨rfl, huv.rest (hclosing hout)⟩

/-! ## Steps -/

/-- A node that starts text ends no line. -/
theorem blind_execute (hrel : Output.Stable rel) {s t : State} (hs : s.Active)
    (hst : s.Abreast rel t) {node : Node}
    (hclosing : node.startsText = false → s.inFunction = false → Output.Closing rel)
    (knot : KnotId) : (story.execute run knot node).Blind rel s t := by
  have hprint (f : Output → Output) (hf : ∀ {o p}, rel o p → rel (f o) (f p)) {s t : State}
      (hst : s.Abreast rel t) : (modifyOutput f).Blind rel s t := by
    obtain ⟨output, tags, hout, rfl⟩ := hst
    exact ⟨rfl, f output, tags, hf hout, rfl⟩
  have hpush (content : Content) {s t : State} (hst : s.Abreast rel t) :
      (s.pushContent content).Abreast rel (t.pushContent content) := by
    obtain ⟨output, tags, hout, rfl⟩ := hst
    exact ⟨output, tags, hout, rfl⟩
  cases node with
  | text text => exact hprint _ (hrel.pushText text) hst
  | lineBreak => exact hprint _ hrel.lineBreak hst
  | glue => exact hprint _ hrel.glue hst
  | tag tag => exact hprint _ (hrel.pushTag tag) hst
  | marker _ | global _ | list _ => exact ⟨rfl, hst⟩
  | interpolation e =>
      refine blind_bind hk hc (·.holds_value e) hs hst fun value u v _ _ huv => ?_
      cases value with
      | none => exact ⟨rfl, huv⟩
      | some value => exact hprint _ (hrel.pushText value.text) huv
  | logic e =>
      refine blind_bind hk hc (·.holds_evaluate e) hs hst fun evaluation u v _ _ huv => ?_
      obtain ⟨output, tags, hout, rfl⟩ := huv
      split
      · refine blind_get rfl ?_
        split
        · exact ⟨rfl, output, tags, hout, rfl⟩
        · exact blind_throw _ _ _
      · exact ⟨rfl, output, tags, hout, rfl⟩
  | divert d => exact blind_divert hk hc hs hst (hclosing rfl) d
  | choice id entries => exact blind_offer hk hc hs hst (hclosing rfl) knot id entries
  | conditional subject branches otherwise =>
      refine blind_bind hk hc (·.holds_pickBranch? subject branches) hs hst ?_
      intro place u v _ _ huv
      exact ⟨rfl, hpush _ huv⟩
  | sequence id kind groups =>
      refine blind_bind hk hc (·.holds_pickGroup? id kind groups.length) hs hst ?_
      intro place u v _ _ huv
      exact ⟨rfl, hpush _ huv⟩

/-- A step is blind to the output, for every relation that survives what content prints; outside of
functions, unless it starts text, it has to survive the end of a flow as well. -/
theorem blind_step (hrel : Output.Stable rel) {s t : State} (hs : s.Aligned)
    (hst : s.Abreast rel t)
    (hclosing : s.startsText = false → s.inFunction = false → Output.Closing rel) :
    (story.step run).Blind rel s t := by
  have hframes : t.frames = s.frames := by
    obtain ⟨_, _, _, rfl⟩ := hst
    rfl
  unfold Flow.Blind
  cases htop : s.frames.top? with
  | none =>
      rw [step_of_idle htop, step_of_idle (hframes ▸ htop)]
      refine ⟨rfl, hst.rest (hclosing ?_ ?_)⟩
      · rw [State.startsText, htop]
        rfl
      · rw [State.inFunction, State.topKind?, htop]
        rfl
  | some frame =>
      have htop' : t.frames.top? = some frame := hframes ▸ htop
      cases hnext : frame.next? with
      | none =>
          rw [step_of_finished htop hnext, step_of_finished htop' hnext]
          refine ⟨rfl, hst.finishFrame (hclosing ?_)⟩
          rw [State.startsText, htop, Option.bind_some, Frame.peek?_of_next?_eq_none hnext]
      | some next =>
          obtain ⟨cursor, frame'⟩ := next
          have hon : s.SameBelow (story.past s cursor frame') := sameBelow_past htop hnext
          have hpast : State.Abreast rel (story.past s cursor frame')
              (story.past t cursor frame') := hst.past story cursor frame'
          cases hnode : cursor.peek? with
          | none =>
              rw [step_of_passed htop hnext hnode, step_of_passed htop' hnext hnode]
              exact ⟨rfl, hpast⟩
          | some node =>
              rw [step_of_node htop hnext hnode, step_of_node htop' hnext hnode]
              refine blind_execute hk hc hrel (hon.active (.of_aligned hs htop)) hpast ?_
                frame'.knot
              rw [hon.inFunction_eq]
              intro htext
              refine hclosing ?_
              rw [State.startsText, htop, Option.bind_some, Frame.peek?_of_next? hnext hnode]
              cases node <;> first | rfl | cases htext

/-! ## Functions -/

/-- A function ends no flow, so no line is ended for good in it. -/
theorem blind_runBy (hrel : Output.Stable rel) {s t : State} (hs : s.Active)
    (hst : s.Abreast rel t) (name : String) (arguments : List Argument) :
    (story.runBy (story.step run) name arguments).Blind rel s t := by
  unfold Story.runBy
  split
  · exact blind_throw _ _ _
  next id _ =>
    unfold Story.knotAt
    cases story.script.locate (.knot id) with
    | error fault => exact blind_throw _ _ _
    | ok location =>
        cases story.script.knot? id with
        | none => exact blind_throw _ _ _
        | some knot =>
            show Flow.Blind rel (if knot.isFunction then _ else _) s t
            split
            · refine blind_get (by obtain ⟨_, _, _, rfl⟩ := hst; rfl) (blind_modify ?_)
              have hcalled : s.Within (s.pushFrame
                  (.atLocation (.function (s.frames.size - 1)) knot.objects location)) :=
                State.within_pushFrame hs rfl
              refine blind_bind hk hc (·.all.holds_bindParameters knot arguments)
                (hcalled.active hs) ?_ fun _ u v hu hsu huv => ?_
              · obtain ⟨output, tags, hout, rfl⟩ := hst
                exact ⟨output, tags, hout, rfl⟩
              have hvisited := State.kept_visitAll State.steady_visit u location.visits hu
              have hentered := (hcalled.sameBelow (Nat.lt_succ_self _)
                (hsu.trans hvisited).sameBelow).withReturned none
              obtain ⟨output, tags, hout, hv⟩ := huv.visitAll location.visits
              refine blind_modify (blind_modifyGet ?_ ?_)
              · rw [hv]
                rfl
              refine Blind.bind (blind_repeatWhile ?_ ?_ _ hentered ⟨output, tags, hout, ?_⟩)
                (reaches_repeatWithin (fun _ _ => reaches_stepWithin hc) hs hentered _ _) ?_
              · rintro s _ ⟨_, _, _, rfl⟩
                rfl
              · intro w x hw hsize hwx
                have hsize := of_decide_eq_true hsize
                refine ⟨blind_step hk hc hrel (hw.active hs).toAligned hwx ?_,
                  reaches_stepWithin hc hs hw hsize⟩
                intro _ hout
                rw [(hw.inFunction hsize).1] at hout
                cases hout
              · rw [hv]
                rfl
              · rintro _ w _ _ ⟨output, tags, hout, rfl⟩
                exact ⟨rfl, output, tags, hout, rfl⟩
            · exact blind_throw _ _ _

end Steps

/-- Functions are blind to the output, to whatever depth they call others. -/
theorem abreast_runFunction (story : Story) (hrel : Output.Stable rel) (depth : Nat) :
    ∀ name args, (abreast rel).Holds (story.runFunction depth name args) := by
  induction depth with
  | zero =>
      intro name args
      exact abreast_throw _
  | succ depth ih =>
      intro name args
      have hk := story.couples_abreast ih
      have hc := story.honours_runFunction depth
      refine ⟨fun s t ⟨hs, hst⟩ => ?_⟩
      refine ((blind_runBy hk hc hrel hs hst name args).and_ensures
        (story.reaches_runFunction hs (depth + 1) name args)).mono ?_ fun _ _ _ h => h
      rintro _ u v ⟨⟨hsu, _⟩, huv⟩
      exact ⟨hsu.active hs, huv⟩

/-- A step of the story is blind to the output. -/
theorem blind_storyStep (story : Story) (hrel : Output.Stable rel) {s t : State} (hs : s.Aligned)
    (hst : s.Abreast rel t)
    (hclosing : s.startsText = false → s.inFunction = false → Output.Closing rel) :
    (story.step story.callFunction).Blind rel s t :=
  blind_step (story.couples_abreast (story.abreast_runFunction hrel _)) story.honours_callFunction
    hrel hs hst hclosing

end Story

end Skein
