import Skein.Proofs.Expr.Effects
import Skein.Proofs.Story.Nodes
import Skein.Story.Flow.Step

set_option autoImplicit false

/-!
# Story: what flow does to the state without moving

Evaluating expressions, picking branches and groups, rendering the text of choices and
binding parameters look at the state and change it in few ways.  A coupling that these ways
follow, or a contract that they honour, is followed or honoured by all that is made of them.  What
moves the frames is not among it, and so nothing here fails for want of a frame.

Evaluating an expression is one of these ways, and so is picking a group of a sequence.  Where not
every expression and not every sequence follows a coupling, content still does if it is made of
nodes whose own ones do.
-/

namespace Skein

/-! ## Couplings -/

/-- The ways in which flow looks at the state to find places, and changes it to bind parameters, or
fails, follow a coupling. -/
structure State.Couples (k : Coupling StoryFault State) : Prop where
  fail : ∀ {fault : StoryFault}, fault ≠ .navigation .emptyFrameStack →
    ∀ s t, k.same s t → k.failed fault s t
  store : ∀ {s t : State}, k.same s t → s.store = t.store
  currentKnot? : ∀ {s t : State}, k.same s t → s.currentKnot? = t.currentKnot?
  declare : ∀ (name : String) (value : Value) (s t : State), k.same s t →
    k.same { s with store := s.store.declareTemporary name value }
      { t with store := t.store.declareTemporary name value }
  addAlias : ∀ (name target : String) (s t : State), k.same s t →
    k.same { s with store := s.store.addAlias name target }
      { t with store := t.store.addAlias name target }

/-- Running nodes that are admitted, apart from moving, follows a coupling: each evaluates its own
expressions and picks its own group, and holds only nodes that are admitted too. -/
structure Story.CouplesIn (story : Story) (run : Call) (k : Coupling StoryFault State)
    (admits : Node → Prop) : Prop extends State.Couples k where
  parts : ∀ {node : Node}, admits node → ∀ part ∈ node.parts, ∀ inner ∈ part, admits inner
  evaluate : ∀ {node : Node}, admits node → ∀ e ∈ node.expressions,
    k.Holds (e.evaluate (story.host run))
  nextGroup : ∀ {id : NodeId} {kind : SequenceKind} {groups : List Content},
    admits (.sequence id kind groups) → ∀ s t, k.same s t →
      (s.nextGroup id kind groups.length).1 = (t.nextGroup id kind groups.length).1 ∧
        k.same (s.nextGroup id kind groups.length).2 (t.nextGroup id kind groups.length).2

/-- The ways in which flow looks at the state and changes it without moving, or fails, follow a
coupling. -/
structure Story.Couples (story : Story) (run : Call) (k : Coupling StoryFault State) : Prop where
  host : (story.host run).Couples k
  fail : ∀ {fault : StoryFault}, fault ≠ .navigation .emptyFrameStack →
    ∀ s t, k.same s t → k.failed fault s t
  currentKnot? : ∀ {s t : State}, k.same s t → s.currentKnot? = t.currentKnot?
  nextGroup : ∀ (id : NodeId) (kind : SequenceKind) (groups : Nat) (s t : State), k.same s t →
    (s.nextGroup id kind groups).1 = (t.nextGroup id kind groups).1 ∧
      k.same (s.nextGroup id kind groups).2 (t.nextGroup id kind groups).2
  addAlias : ∀ (name target : String) (s t : State), k.same s t →
    k.same { s with store := s.store.addAlias name target }
      { t with store := t.store.addAlias name target }

namespace Script

theorem resolve_ne_emptyFrameStack (script : Script) (path : String) (current : Option KnotId) :
    script.resolve path current ≠ .error (.navigation .emptyFrameStack) := by
  simp only [resolve]
  split
  · simp
  · split <;> simp

theorem locate_ne_emptyFrameStack (script : Script) (address : Address) :
    script.locate address ≠ .error .emptyFrameStack := by
  simp only [locate]
  split
  · simp
  · cases address with
    | knot _ => simp
    | stitch _ index => dsimp only; split <;> simp
    | gather _ id => dsimp only; split <;> simp

end Script

namespace Coupling

variable {story : Story} {run : Call} {k : Coupling StoryFault State} {e : Expression}

theorem Holds.value (he : k.Holds (e.evaluate (story.host run))) :
    k.Holds (e.value (story.host run)) := he.bind fun _ => holds_pure _

theorem Holds.isTrue (he : k.Holds (e.evaluate (story.host run))) :
    k.Holds (e.isTrue (story.host run)) := he.value.bind fun _ => holds_pure _

end Coupling

namespace State.Couples

variable {story : Story} {run : Call} {k : Coupling StoryFault State} (hk : State.Couples k)

include hk

open Coupling Story

/-! ## Failing -/

theorem holds_throw {α : Type} {fault : StoryFault}
    (hfault : fault ≠ .navigation .emptyFrameStack) : k.Holds (throw fault : Flow α) :=
  Coupling.holds_throw (hk.fail hfault)

theorem holds_ofValue {α : Type} (r : Except ValueFault α) : k.Holds (Flow.ofValue r) := by
  cases r with
  | ok a => exact holds_pure a
  | error fault => exact hk.holds_throw (by simp)

theorem holds_ofNavigation {α : Type} {r : Except NavigationFault α}
    (hr : r ≠ .error .emptyFrameStack) : k.Holds (Flow.ofNavigation r) := by
  cases r with
  | ok a => exact holds_pure a
  | error fault =>
      refine hk.holds_throw ?_
      rintro ⟨⟩
      exact hr rfl

/-! ## Finding places and binding parameters -/

theorem holds_knotAt (id : KnotId) : k.Holds (story.knotAt id) := by
  unfold Story.knotAt
  split
  · exact holds_pure _
  · exact hk.holds_throw (by simp)

theorem holds_find (path : String) : k.Holds (story.find path) := by
  refine holds_get_bind (fun _ _ hst => by rw [hk.currentKnot? hst]) fun s => ?_
  split
  · next fault hresolve =>
      refine hk.holds_throw ?_
      rintro rfl
      exact story.script.resolve_ne_emptyFrameStack _ _ hresolve
  · next address _ =>
      have hlocate := story.script.locate_ne_emptyFrameStack address
      exact (hk.holds_ofNavigation hlocate).bind fun location => holds_pure _

theorem holds_divertArguments {args : List Expression}
    (hargs : ∀ e ∈ args, k.Holds (e.evaluate (story.host run))) :
    k.Holds (story.divertArguments run args) := by
  induction args with
  | nil => exact holds_pure _
  | cons e rest ih =>
      obtain ⟨he, hrest⟩ := List.forall_mem_cons.mp hargs
      refine he.value.bind fun value => ?_
      cases value with
      | none => exact hk.holds_throw (by simp)
      | some value =>
          refine holds_get_bind (fun s t hst => ?_) fun s =>
            (ih hrest).bind fun arguments => holds_pure _
          rw [argumentOrigin, argumentOrigin, hk.store hst]

theorem holds_bindEach (target : String) (parameters : List Parameter)
    (arguments : List Argument) : k.Holds (bindEach target parameters arguments) := by
  induction parameters generalizing arguments with
  | nil => exact holds_pure _
  | cons parameter parameters ih =>
      cases arguments with
      | nil => exact holds_pure _
      | cons argument arguments =>
          simp only [bindEach]
          split
          · split
            · exact Holds.bind (holds_modify (hk.addAlias _ _)) fun _ => ih _
            · exact (hk.holds_throw (by simp)).bind fun _ => ih _
          · exact Holds.bind (holds_modify (hk.declare _ _)) fun _ => ih _

theorem holds_bindParameters (knot : Knot) (arguments : List Argument) :
    k.Holds (bindParameters knot arguments) := by
  unfold bindParameters
  split
  · exact hk.holds_bindEach _ _ _
  · exact hk.holds_throw (by simp)

theorem holds_bindAt (address : Address) (knot : Knot) (arguments : List Argument) :
    k.Holds (bindAt address knot arguments) := by
  unfold bindAt
  split
  · exact hk.holds_bindParameters _ _
  · exact holds_pure _

/-! ## Conditions -/

omit hk in
theorem holds_firstBranch? {test : Expression → Flow Bool} {branches : List Branch}
    (htest : ∀ branch ∈ branches, k.Holds (test branch.condition)) (place : Nat) :
    k.Holds (firstBranch? test place branches) := by
  induction branches generalizing place with
  | nil => exact holds_pure _
  | cons branch rest ih =>
      obtain ⟨hbranch, hrest⟩ := List.forall_mem_cons.mp htest
      refine hbranch.bind fun passed => ?_
      split
      · exact holds_pure _
      · exact ih hrest _

theorem holds_isCase (subject : Option Value) {case : Expression}
    (hcase : k.Holds (case.evaluate (story.host run))) :
    k.Holds (story.isCase run subject case) := by
  refine hcase.value.bind fun value => ?_
  split
  · refine holds_get_bind (fun s t hst => by rw [hk.store hst]) fun s => ?_
    exact (hk.holds_ofValue _).bind fun equal => holds_pure _
  · exact holds_pure _

theorem holds_pickBranch? {subject : Option Expression} {branches : List Branch}
    (hsubject : ∀ e ∈ subject, k.Holds (e.evaluate (story.host run)))
    (hbranches : ∀ branch ∈ branches, k.Holds (branch.condition.evaluate (story.host run))) :
    k.Holds (story.pickBranch? run subject branches) := by
  cases subject with
  | none => exact holds_firstBranch? (fun branch hbranch => (hbranches branch hbranch).isTrue) 0
  | some e =>
      refine (hsubject e rfl).value.bind fun value => ?_
      exact holds_firstBranch?
        (fun branch hbranch => hk.holds_isCase value (hbranches branch hbranch)) 0

omit hk in
theorem holds_allHold {conditions : List Expression}
    (hconditions : ∀ e ∈ conditions, k.Holds (e.evaluate (story.host run))) :
    k.Holds (story.allHold run conditions) := by
  induction conditions with
  | nil => exact holds_pure _
  | cons condition rest ih =>
      obtain ⟨hcondition, hrest⟩ := List.forall_mem_cons.mp hconditions
      refine hcondition.isTrue.bind fun holds => ?_
      split
      · exact ih hrest
      · exact holds_pure _

end State.Couples

/-! ## Nodes that are admitted -/

namespace Story.CouplesIn

variable {story : Story} {run : Call} {k : Coupling StoryFault State} {admits : Node → Prop}

open Coupling

theorem holds_branch (hk : story.CouplesIn run k admits) {subject : Option Expression}
    {branches : List Branch} {otherwise : Option Content}
    (hnode : admits (.conditional subject branches otherwise)) :
    k.Holds (story.pickBranch? run subject branches) := by
  refine hk.holds_pickBranch? (fun e he => hk.evaluate hnode e ?_) fun branch hbranch => ?_
  · exact List.mem_append_left _ (Option.mem_toList.mpr he)
  · exact hk.evaluate hnode _ (List.mem_append_right _ (List.mem_map_of_mem hbranch))

theorem holds_group (hk : story.CouplesIn run k admits) {id : NodeId} {kind : SequenceKind}
    {groups : List Content} (hnode : admits (.sequence id kind groups)) :
    k.Holds (pickGroup? id kind groups.length) :=
  holds_modifyGet (hk.nextGroup hnode)

mutual

theorem holds_renderNode (hk : story.CouplesIn run k admits) (out : ChoiceText) :
    (node : Node) → admits node → k.Holds (story.renderNode run out node)
  | .text _, _ | .tag _, _ | .marker _, _ | .lineBreak, _ | .glue, _ | .divert _, _ | .choice _ _, _
  | .global _, _ | .list _, _ => holds_pure _
  | .interpolation e, hnode =>
      (hk.evaluate hnode e List.mem_cons_self).value.bind fun _ => holds_pure _
  | .logic e, hnode => (hk.evaluate hnode e List.mem_cons_self).bind fun _ => holds_pure _
  | .conditional subject branches otherwise, hnode => by
      refine (hk.holds_branch hnode).bind fun place => ?_
      cases place with
      | some place =>
          refine holds_renderBranch hk out place branches fun branch hbranch => ?_
          exact hk.parts hnode _ (List.mem_append_right _ (List.mem_map_of_mem hbranch))
      | none =>
          refine holds_renderOptional hk out otherwise fun content hcontent => ?_
          exact hk.parts hnode _ (List.mem_append_left _ (Option.mem_toList.mpr hcontent))
  | .sequence id kind groups, hnode => by
      refine (hk.holds_group hnode).bind fun place => ?_
      cases place with
      | some place => exact holds_renderGroup hk out place groups (hk.parts hnode)
      | none => exact holds_pure _

theorem holds_render (hk : story.CouplesIn run k admits) (out : ChoiceText) :
    (content : List Node) → (∀ node ∈ content, admits node) → k.Holds (story.render run out content)
  | [], _ => holds_pure _
  | node :: rest, hcontent =>
      (holds_renderNode hk out node (hcontent node List.mem_cons_self)).bind fun out =>
        holds_render hk out rest fun other hother => hcontent other (List.mem_cons_of_mem _ hother)

theorem holds_renderBranch (hk : story.CouplesIn run k admits) (out : ChoiceText) :
    (place : Nat) → (branches : List Branch) →
      (∀ branch ∈ branches, ∀ node ∈ branch.content, admits node) →
      k.Holds (story.renderBranch run out place branches)
  | _, [], _ => by
      unfold Story.renderBranch
      exact holds_pure _
  | 0, ⟨_, content⟩ :: _, hbranches => holds_render hk out content (hbranches _ List.mem_cons_self)
  | place + 1, ⟨_, _⟩ :: rest, hbranches =>
      holds_renderBranch hk out place rest fun branch hbranch =>
        hbranches branch (List.mem_cons_of_mem _ hbranch)

theorem holds_renderOptional (hk : story.CouplesIn run k admits) (out : ChoiceText) :
    (content : Option (List Node)) → (∀ part ∈ content, ∀ node ∈ part, admits node) →
      k.Holds (story.renderOptional run out content)
  | none, _ => holds_pure _
  | some content, hcontent => holds_render hk out content (hcontent content rfl)

theorem holds_renderGroup (hk : story.CouplesIn run k admits) (out : ChoiceText) :
    (place : Nat) → (groups : List (List Node)) →
      (∀ group ∈ groups, ∀ node ∈ group, admits node) →
      k.Holds (story.renderGroup run out place groups)
  | _, [], _ => by
      unfold Story.renderGroup
      exact holds_pure _
  | 0, group :: _, hgroups => holds_render hk out group (hgroups group List.mem_cons_self)
  | place + 1, _ :: rest, hgroups =>
      holds_renderGroup hk out place rest fun group hgroup =>
        hgroups group (List.mem_cons_of_mem _ hgroup)

end

theorem holds_choiceText (hk : story.CouplesIn run k admits) {entry : Entry}
    (hentry : ∀ node ∈ entry.text, admits node) : k.Holds (story.choiceText run entry) := by
  unfold Story.choiceText
  split
  · exact holds_pure _
  · exact (hk.holds_render _ _ hentry).bind fun _ => holds_pure _

end Story.CouplesIn

/-! ## All nodes -/

namespace Story.Couples

variable {story : Story} {run : Call} {k : Coupling StoryFault State} (hk : story.Couples run k)

include hk

open Coupling

theorem holds_evaluate (e : Expression) : k.Holds (e.evaluate (story.host run)) :=
  hk.host.holds_evaluate (hk.fail (by simp [Story.host])) e.tokens e.order

theorem holds_value (e : Expression) : k.Holds (e.value (story.host run)) :=
  (hk.holds_evaluate e).value

/-- Where every expression and every sequence follows a coupling, so does running any node. -/
theorem all : story.CouplesIn run k fun _ => True where
  fail := hk.fail
  store hst := (hk.host.looks hst).store
  currentKnot? := hk.currentKnot?
  declare name value _ _ hst := hk.host.declare name value hst
  addAlias := hk.addAlias
  parts _ _ _ _ _ := trivial
  evaluate _ e _ := hk.holds_evaluate e
  nextGroup _ := hk.nextGroup _ _ _

theorem holds_divertArguments (args : List Expression) :
    k.Holds (story.divertArguments run args) :=
  hk.all.holds_divertArguments fun e _ => hk.holds_evaluate e

theorem holds_pickBranch? (subject : Option Expression) (branches : List Branch) :
    k.Holds (story.pickBranch? run subject branches) :=
  hk.all.holds_pickBranch? (fun e _ => hk.holds_evaluate e) fun _ _ => hk.holds_evaluate _

theorem holds_pickGroup? (id : NodeId) (kind : SequenceKind) (groups : Nat) :
    k.Holds (pickGroup? id kind groups) :=
  holds_modifyGet (hk.nextGroup id kind groups)

theorem holds_choiceText (entry : Entry) : k.Holds (story.choiceText run entry) :=
  hk.all.holds_choiceText fun _ _ => trivial

theorem holds_allHold (conditions : List Expression) : k.Holds (story.allHold run conditions) :=
  State.Couples.holds_allHold fun e _ => hk.holds_evaluate e

end Story.Couples

/-! ## Contracts -/

/-- The ways in which flow changes the state without moving, or fails, honour a contract. -/
structure Story.Honours (story : Story) (run : Call) (c : Contract StoryFault State) : Prop where
  host : (story.host run).Honours c
  fail : ∀ {fault : StoryFault}, fault ≠ .navigation .emptyFrameStack →
    ∀ s : State, c.failed s fault s
  nextGroup : ∀ (s : State) (id : NodeId) (kind : SequenceKind) (groups : Nat),
    c.kept s (s.nextGroup id kind groups).2
  addAlias : ∀ (s : State) (name target : String),
    c.kept s { s with store := s.store.addAlias name target }

namespace Story.Honours

variable {story : Story} {run : Call} {c : Contract StoryFault State}

theorem couples (hc : story.Honours run c) (start : State) :
    story.Couples run (c.coupling start) where
  host := hc.host.couples start
  fail := by
    rintro fault hfault s _ ⟨rfl, hs⟩
    exact ⟨rfl, c.failed_trans hs (hc.fail hfault s)⟩
  currentKnot? := by
    rintro s _ ⟨rfl, _⟩
    rfl
  nextGroup := by
    rintro id kind groups s _ ⟨rfl, hs⟩
    exact ⟨rfl, rfl, c.trans hs (hc.nextGroup s id kind groups)⟩
  addAlias := by
    rintro name target s _ ⟨rfl, hs⟩
    exact ⟨rfl, c.trans hs (hc.addAlias s name target)⟩

/-- What follows every coupling that the flow follows honours every contract that it honours. -/
theorem holds {α : Type} {x : Flow α} (hc : story.Honours run c)
    (hx : ∀ {k : Coupling StoryFault State}, story.Couples run k → k.Holds x) : c.Holds x :=
  Contract.holds_of_coupling fun start => hx (hc.couples start)

end Story.Honours

/-! ## Host functions -/

theorem Story.holds_callExternal {c : Contract StoryFault State}
    (hfail : ∀ (fault : ExprFault) (s : State), c.failed s (.expression fault) s)
    (hkept : ∀ (s : State) (externals : Externals), c.kept s { s with externals := externals })
    (name : String) (args : List Value) : c.Holds (Story.callExternal name args) := by
  refine Contract.holds_get.bind fun s => ?_
  cases s.externals.call name args with
  | error fault => exact Contract.holds_throw fun s => hfail fault s
  | ok called =>
      refine (Contract.holds_pure called).bind fun (answer, externals) => ?_
      exact (Contract.holds_modify fun s => hkept s externals).bind fun _ => Contract.holds_pure _

/-! ## Visits -/

section Visits

variable {c : Contract StoryFault State}
  (hvisit : ∀ (s : State) (id : NodeId), c.kept s (s.visit id))

include hvisit

/-- What a visit keeps is kept by any number of them. -/
theorem State.kept_visitAll (s : State) (ids : List NodeId) : c.kept s (s.visitAll ids) := by
  induction ids generalizing s with
  | nil => exact c.refl s
  | cons id rest ih => exact c.trans (hvisit s id) (ih (s.visit id))

end Visits

end Skein
