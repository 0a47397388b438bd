import Mathlib.Data.List.Perm.Subperm
import Skein.Proofs.Story.Identities
import Skein.Story.Draft.Basic

set_option autoImplicit false

/-!
# Story: logs of drafts

While a draft is worked on, identities are drawn and faults are met.  The draft alone tells which,
and in what order: its log.  The desk at the end is the one that the log leads to, so the fault that
is remembered is the first of the log.  The identities in what was drafted are among those that came
in with the log, and none of them is used more often than it came in.
-/

namespace Skein.Draft

/-! ## Logs -/

/-- Something that happens while a draft is worked on. -/
inductive Event where
  /-- An identity is drawn. -/
  | drawn
  /-- An identity comes with a node or a knot that is ready as it is. -/
  | brought (id : NodeId)
  | failed (fault : StoryFault)

/-- Whether an event brings no identity from elsewhere. -/
def Event.isOwn : Event → Bool
  | .brought _ => false
  | _ => true

/-- Whether an event draws an identity. -/
def Event.draws : Event → Bool
  | .drawn => true
  | _ => false

/-- The fault that is met. -/
def Event.fault? : Event → Option StoryFault
  | .failed fault => some fault
  | _ => none

/-- What reading an expression leads to. -/
def reading (source : String) : List Event :=
  match Expression.parse Symbols.none source with
  | .ok _ => []
  | .error fault => [.failed (.expression fault)]

mutual

/-- What drafting a part leads to.  Nothing inside a conditional is drafted if its subject cannot be
read. -/
def Part.log : Part → List Event
  | .text _ | .lineBreak | .glue | .marker _ | .tag _ | .list _ => []
  | .interpolation source | .logic source | .global _ source _ => reading source
  | .divert _ _ args => args.flatMap reading
  | .node n => (Content.ids [n]).map .brought
  | .choice entries => .drawn :: entriesLog entries
  | .conditional none arms => armsLog arms
  | .conditional (some source) arms =>
    match Expression.parse Symbols.none source with
    | .ok _ => armsLog arms
    | .error fault => [.failed (.expression fault)]
  | .sequence _ groups => .drawn :: groupsLog groups

/-- What drafting parts leads to. -/
def partsLog : List Part → List Event
  | [] => []
  | part :: rest => part.log ++ partsLog rest

/-- What drafting a choice leads to. -/
def traitsLog : List Trait → List Event
  | [] => []
  | .text parts :: rest | .result parts :: rest => partsLog parts ++ traitsLog rest
  | .condition source :: rest => reading source ++ traitsLog rest
  | .sticky :: rest | .fallback :: rest | .immediate :: rest => traitsLog rest

/-- What drafting the choices of a block leads to. -/
def entriesLog : List (List Trait) → List Event
  | [] => []
  | traits :: rest => traitsLog traits ++ entriesLog rest

/-- What drafting the arms of a conditional leads to. -/
def armsLog : List Arm → List Event
  | [] => []
  | .when source parts :: rest => partsLog parts ++ (reading source ++ armsLog rest)
  | .otherwise parts :: rest => partsLog parts ++ armsLog rest

/-- What drafting the groups of a sequence leads to. -/
def groupsLog : List (List Part) → List Event
  | [] => []
  | parts :: rest => partsLog parts ++ groupsLog rest

end

/-! ## Desks -/

namespace Desk

/-- The desk after an event. -/
def note (desk : Desk) : Event → Desk
  | .drawn => { desk with ids := desk.ids.take.2 }
  | .brought _ => desk
  | .failed fault => { desk with fault := desk.fault.or (some fault) }

/-- The desk after a log. -/
def after (desk : Desk) (log : List Event) : Desk := log.foldl note desk

/-- The identities that come in with a log. -/
def gains (desk : Desk) : List Event → List NodeId
  | [] => []
  | .drawn :: log => desk.ids.take.1 :: (desk.note .drawn).gains log
  | .brought id :: log => id :: desk.gains log
  | .failed fault :: log => (desk.note (.failed fault)).gains log

variable (desk : Desk)

theorem after_append (first second : List Event) :
    desk.after (first ++ second) = (desk.after first).after second := List.foldl_append

theorem gains_append (first second : List Event) :
    desk.gains (first ++ second) = desk.gains first ++ (desk.after first).gains second := by
  induction first generalizing desk with
  | nil => rfl
  | cons event first ih =>
      cases event with
      | drawn => exact congrArg (_ :: ·) (ih _)
      | brought id => exact congrArg (_ :: ·) (ih _)
      | failed fault => exact ih _

/-- The first fault is the one that is remembered. -/
theorem fault_after (log : List Event) :
    (desk.after log).fault = desk.fault.or (log.findSome? Event.fault?) := by
  induction log generalizing desk with
  | nil => exact (Option.or_none).symm
  | cons event log ih =>
      show ((desk.note event).after log).fault = _
      rw [ih]
      cases event with
      | drawn => rw [List.findSome?_cons]; rfl
      | brought id => rw [List.findSome?_cons]; rfl
      | failed fault =>
          rw [List.findSome?_cons]
          exact Option.or_assoc

/-- Without identities from elsewhere, those that come in are the next ones of the source. -/
theorem gains_eq {log : List Event} (h : log.all Event.isOwn = true) :
    desk.gains log = desk.ids.takeMany (log.countP Event.draws) := by
  induction log generalizing desk with
  | nil => rfl
  | cons event log ih =>
      rw [List.all_cons, Bool.and_eq_true] at h
      cases event with
      | drawn =>
          rw [List.countP_cons_of_pos rfl]
          exact congrArg (_ :: ·) (ih _ h.2)
      | brought id => cases h.1
      | failed fault =>
          rw [List.countP_cons_of_neg Bool.false_ne_true]
          exact ih _ h.2

end Desk

/-! ## What work keeps to -/

variable {α β : Type}

/-- Work on a draft keeps to a log: it leads to the desk that the log leads to, and the identities
in its result are, none more often than there, among those in hand before and those that come in with
the log. -/
structure KeepsTo (x : Work α) (log : List Event) (held : List NodeId) (ids : α → List NodeId) :
    Prop where
  desk : ∀ desk, (x.run desk).2 = desk.after log
  ids : ∀ desk, List.Subperm (ids (x.run desk).1) (held ++ desk.gains log)

namespace KeepsTo

variable {x : Work α} {log : List Event} {held : List NodeId} {ids : α → List NodeId}

theorem pure {a : α} (h : List.Subperm (ids a) held) : KeepsTo (pure a) [] held ids :=
  ⟨fun _ => rfl, fun _ => (List.append_nil held).symm ▸ h⟩

/-- What is done next may rely on what the work before it gives. -/
theorem bind_of {f : α → Work β} {next : List Event} {ids' : β → List NodeId}
    (hx : KeepsTo x log held ids)
    (hf : ∀ desk, KeepsTo (f (x.run desk).1) next (ids (x.run desk).1) ids') :
    KeepsTo (x >>= f) (log ++ next) held ids' := by
  have hrun (desk : Desk) : (x >>= f).run desk = (f (x.run desk).1).run (x.run desk).2 := rfl
  refine ⟨fun desk => ?_, fun desk => ?_⟩
  · rw [hrun, (hf desk).desk, hx.desk, Desk.after_append]
  · rw [hrun, hx.desk, Desk.gains_append, ← List.append_assoc]
    exact ((hf desk).ids _).trans ((hx.ids desk).append (List.Subperm.refl _))

theorem bind {f : α → Work β} {next : List Event} {ids' : β → List NodeId}
    (hx : KeepsTo x log held ids) (hf : ∀ a, KeepsTo (f a) next (ids a) ids') :
    KeepsTo (x >>= f) (log ++ next) held ids' := hx.bind_of fun _ => hf _

/-- Something is made of the result. -/
theorem map {g : α → β} {ids' : β → List NodeId} (hx : KeepsTo x log held ids)
    (hg : ∀ a, List.Subperm (ids' (g a)) (ids a)) :
    KeepsTo (x >>= fun a => Pure.pure (g a)) log held ids' :=
  ⟨hx.desk, fun desk => (hg _).trans (hx.ids desk)⟩

/-- More identities may be in hand. -/
theorem more {held' : List NodeId} (h : KeepsTo x log held ids)
    (hheld : List.Subperm held held') : KeepsTo x log held' ids :=
  ⟨h.desk, fun desk => (h.ids desk).trans (hheld.append (List.Subperm.refl _))⟩

/-- What is in hand besides stays there. -/
theorem frame (h : KeepsTo x log held ids) (hnone : held = []) (others : List NodeId) :
    KeepsTo x log others fun a => others ++ ids a := by
  subst hnone
  exact ⟨h.desk, fun desk => (List.Subperm.refl others).append (h.ids desk)⟩

end KeepsTo

theorem keepsTo_freshId : KeepsTo freshId [.drawn] [] fun id => [id] :=
  ⟨fun _ => rfl, fun _ => List.Subperm.refl _⟩

theorem keepsTo_report (fault : StoryFault) :
    KeepsTo (report fault) [.failed fault] [] fun _ => [] :=
  ⟨fun _ => rfl, fun _ => List.Subperm.refl _⟩

/-- What is ready brings the identities that it has. -/
theorem keepsTo_ready (a : α) (ids : α → List NodeId) :
    KeepsTo (pure a) ((ids a).map .brought) [] ids := by
  have hafter (desk : Desk) (list : List NodeId) :
      desk.after (list.map .brought) = desk ∧ desk.gains (list.map .brought) = list := by
    induction list with
    | nil => exact ⟨rfl, rfl⟩
    | cons id rest ih => exact ⟨ih.1, congrArg (id :: ·) ih.2⟩
  refine ⟨fun desk => (hafter desk _).1.symm, fun desk => ?_⟩
  rw [(hafter desk _).2]
  exact List.Subperm.refl _

theorem keepsTo_expression? (source : String) :
    KeepsTo (expression? source) (reading source) [] fun _ => [] := by
  unfold expression? reading
  cases Expression.parse Symbols.none source with
  | ok e => exact .pure (List.Subperm.refl _)
  | error fault => exact (keepsTo_report _).map fun _ => List.Subperm.refl _

theorem keepsTo_expressions (done : List Expression) (sources : List String) :
    KeepsTo (expressions done sources) (sources.flatMap reading) [] fun _ => [] := by
  induction sources generalizing done with
  | nil => exact .pure (List.Subperm.refl _)
  | cons source rest ih => exact (keepsTo_expression? source).bind fun e => ih _

/-! ## Content -/

theorem subperm_leaf {node : Node} (hid : node.id? = none) (hparts : node.parts = []) :
    List.Subperm (Content.ids [node]) [] := by
  rw [Content.ids_leaf hid hparts]

theorem subperm_reverse {f : α → List NodeId} (done : List α) :
    List.Subperm (done.reverse.flatMap f) (done.flatMap f) :=
  ((List.reverse_perm done).flatMap_right f).subperm

/-- A node that is made of an expression, if the expression can be read. -/
theorem keepsTo_expression?_map {node : Expression → Node} (hid : ∀ e, (node e).id? = none)
    (hparts : ∀ e, (node e).parts = []) (source : String) :
    KeepsTo (do return (← expression? source).map node) (reading source) [] fun n =>
      Content.ids n.toList := by
  refine (keepsTo_expression? source).map fun e => ?_
  cases e with
  | none =>
      show List.Subperm (Content.ids []) []
      rw [Content.ids_nil]
  | some e => exact subperm_leaf (hid e) (hparts e)

/-- The identities in the arms of a conditional. -/
def armIds (arms : List Branch × Option Content) : List NodeId :=
  (arms.1.flatMap fun branch => Content.ids branch.content) ++ arms.2.toList.flatMap Content.ids

mutual

theorem keepsTo_node? :
    (part : Part) → KeepsTo (node? part) part.log [] fun n => Content.ids n.toList
  | .text _ | .lineBreak | .glue | .marker _ | .tag _ | .list _ => by
      simp only [node?, Part.log]
      exact .pure (subperm_leaf rfl rfl)
  | .interpolation source | .logic source | .global _ source _ => by
      simp only [node?, Part.log]
      exact keepsTo_expression?_map (fun _ => rfl) (fun _ => rfl) source
  | .divert _ _ args => by
      simp only [node?, Part.log]
      exact (keepsTo_expressions [] args).map fun _ => subperm_leaf rfl rfl
  | .node n => by
      simp only [node?, Part.log]
      exact keepsTo_ready (some n) fun n => Content.ids n.toList
  | .choice entries => by
      simp only [node?, Part.log]
      refine keepsTo_freshId.bind fun id => ?_
      refine ((keepsTo_entriesOf [] entries).frame rfl [id]).map fun entries => ?_
      rw [Option.toList_some, Content.ids_choice]
      exact List.Subperm.refl _
  | .conditional none arms => by
      simp only [node?, Part.log]
      refine (keepsTo_armsOf [] none arms).map fun arms => ?_
      rw [Option.toList_some, Content.ids_conditional]
      exact List.Subperm.refl _
  | .conditional (some source) arms => by
      simp only [node?, expression?, Part.log]
      cases Expression.parse Symbols.none source with
      | error fault =>
          simp only [bind_assoc, pure_bind]
          refine (keepsTo_report _).map fun _ => ?_
          rw [Option.toList_none, Content.ids_nil]
      | ok subject =>
          simp only [pure_bind]
          refine (keepsTo_armsOf [] none arms).map fun arms => ?_
          rw [Option.toList_some, Content.ids_conditional]
          exact List.Subperm.refl _
  | .sequence _ groups => by
      simp only [node?, Part.log]
      refine keepsTo_freshId.bind fun id => ?_
      refine ((keepsTo_groupsOf [] groups).frame rfl [id]).map fun groups => ?_
      rw [Option.toList_some, Content.ids_sequence]
      exact List.Subperm.refl _
termination_by structural part => part

theorem keepsTo_content (done : List Node) :
    (parts : List Part) →
      KeepsTo (content done parts) (partsLog parts) (Content.ids done) Content.ids
  | [] => by
      simp only [content, partsLog]
      exact .pure (Content.ids_reverse_perm done).subperm
  | part :: rest => by
      simp only [content, partsLog]
      refine ((keepsTo_node? part).frame rfl (Content.ids done)).bind fun n => ?_
      refine (keepsTo_content (n.toList ++ done) rest).more ?_
      rw [Content.ids_append]
      exact List.perm_append_comm.subperm
termination_by structural parts => parts

theorem keepsTo_entryOf (entry : Entry) :
    (traits : List Trait) → KeepsTo (entryOf entry traits) (traitsLog traits)
      (Content.entryIds entry) Content.entryIds
  | [] => by
      simp only [entryOf, traitsLog]
      exact .pure (List.Subperm.refl _)
  | .text parts :: rest => by
      simp only [entryOf, traitsLog]
      refine ((keepsTo_content [] parts).frame Content.ids_nil _).bind fun text => ?_
      -- The new text takes the place of the old one, whose identities are given up.
      refine (keepsTo_entryOf { entry with text := text } rest).more ?_
      refine List.perm_append_comm.subperm.trans ?_
      exact ((List.sublist_append_right _ _).append_right _).subperm
  | .result parts :: rest => by
      simp only [entryOf, traitsLog]
      refine ((keepsTo_content [] parts).frame Content.ids_nil _).bind fun result => ?_
      refine (keepsTo_entryOf { entry with result := result } rest).more ?_
      exact ((List.sublist_append_left _ _).append_right _).subperm
  | .condition source :: rest => by
      simp only [entryOf, traitsLog]
      refine ((keepsTo_expression? source).frame rfl _).bind fun e => ?_
      refine (keepsTo_entryOf _ rest).more ?_
      exact (List.sublist_append_left _ _).subperm
  | .sticky :: rest | .fallback :: rest | .immediate :: rest => by
      simp only [entryOf, traitsLog]
      exact keepsTo_entryOf _ rest
termination_by structural traits => traits

theorem keepsTo_entriesOf (done : List Entry) :
    (entries : List (List Trait)) → KeepsTo (entriesOf done entries) (entriesLog entries)
      (done.flatMap Content.entryIds) fun entries => entries.flatMap Content.entryIds
  | [] => by
      simp only [entriesOf, entriesLog]
      exact .pure (subperm_reverse done)
  | traits :: rest => by
      simp only [entriesOf, entriesLog]
      refine ((keepsTo_entryOf _ traits).frame ?_ _).bind fun entry => ?_
      · rw [Content.entryIds, Content.ids_nil]
        rfl
      · exact (keepsTo_entriesOf (entry :: done) rest).more List.perm_append_comm.subperm
termination_by structural entries => entries

theorem keepsTo_armsOf (done : List Branch) (otherwise : Option Content) :
    (arms : List Arm) →
      KeepsTo (armsOf done otherwise arms) (armsLog arms) (armIds (done, otherwise)) armIds
  | [] => by
      simp only [armsOf, armsLog]
      exact .pure ((subperm_reverse done).append (List.Subperm.refl _))
  | .when source parts :: rest => by
      simp only [armsOf, armsLog]
      refine ((keepsTo_content [] parts).frame Content.ids_nil _).bind fun body => ?_
      refine ((keepsTo_expression? source).frame rfl _).bind fun condition => ?_
      rw [List.append_nil]
      cases condition with
      | none =>
          -- The body was drafted, but without a condition there is no branch for it.
          exact (keepsTo_armsOf done otherwise rest).more (List.sublist_append_left _ _).subperm
      | some condition =>
          refine (keepsTo_armsOf (⟨condition, body⟩ :: done) otherwise rest).more ?_
          rw [armIds, List.flatMap_cons, List.append_assoc]
          exact List.perm_append_comm.subperm
  | .otherwise parts :: rest => by
      simp only [armsOf, armsLog]
      refine ((keepsTo_content [] parts).frame Content.ids_nil _).bind fun body => ?_
      refine (keepsTo_armsOf done (some body) rest).more ?_
      rw [armIds, Option.toList_some, List.flatMap_singleton]
      exact ((List.sublist_append_left _ _).append_right _).subperm
termination_by structural arms => arms

theorem keepsTo_groupsOf (done : List Content) :
    (groups : List (List Part)) → KeepsTo (groupsOf done groups) (groupsLog groups)
      (done.flatMap Content.ids) fun groups => groups.flatMap Content.ids
  | [] => by
      simp only [groupsOf, groupsLog]
      exact .pure (subperm_reverse done)
  | parts :: rest => by
      simp only [groupsOf, groupsLog]
      refine ((keepsTo_content [] parts).frame Content.ids_nil _).bind fun group => ?_
      exact (keepsTo_groupsOf (group :: done) rest).more List.perm_append_comm.subperm
termination_by structural groups => groups

end

end Skein.Draft
