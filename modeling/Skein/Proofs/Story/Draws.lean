import Skein.Proofs.Story.Chronicle
import Skein.Proofs.Story.Guards

set_option autoImplicit false

/-!
# Story: content that draws nothing

Two things in a story draw from its randomness: shuffles, and the two functions that answer with a
drawn number or a drawn item.  Content without them may start the randomness anew, but it never
finds out what is drawn.  So two states that differ in their randomness only go on alike, step by
step, through functions and the text of choices, and they still differ in it only when something
fails.

The frames of a story and the choices on offer hold nothing but content of its script, and so it is
enough to look at the script.
-/

namespace Skein

open Outcome

/-! ## What draws -/

/-- Whether a token is a function that draws. -/
def Token.draws : Token → Bool
  | .function f => f.kind = .builtin .random || f.kind = .builtin .listRandom
  | _ => false

/-- Whether a sequence of a kind draws. -/
def SequenceKind.draws : SequenceKind → Bool
  | .shuffle | .shuffleOnce | .shuffleStop => true
  | .sequence | .cycle | .onceOnly => false

/-- Whether a node itself draws, apart from the content that it holds. -/
def Node.draws : Node → Bool
  | .sequence _ kind _ => kind.draws
  | node => node.expressions.any fun e => e.tokens.any Token.draws

namespace Script

/-- No node of the script draws, wherever it stands. -/
def DrawsNothing (script : Script) : Prop := ∀ node ∈ script.nodes, node.draws = false

instance (script : Script) : Decidable script.DrawsNothing :=
  inferInstanceAs (Decidable (∀ node ∈ script.nodes, node.draws = false))

variable {script : Script}

theorem mem_nodes_of_knot {knot : Knot} (hknot : knot ∈ script.knots) {node : Node}
    (hnode : node ∈ knot.objects) : node ∈ script.nodes :=
  List.mem_flatMap.mpr ⟨knot, hknot, Content.subset_nodes _ hnode⟩

theorem mem_nodes_of_part {node inner : Node} (hnode : node ∈ script.nodes) {part : Content}
    (hpart : part ∈ node.parts) (hinner : inner ∈ part) : inner ∈ script.nodes := by
  obtain ⟨knot, hknot, hmem⟩ := List.mem_flatMap.mp hnode
  exact List.mem_flatMap.mpr ⟨knot, hknot, Content.part_subset_nodes hmem hpart hinner⟩

theorem DrawsNothing.expressions (h : script.DrawsNothing) {node : Node}
    (hnode : node ∈ script.nodes) {e : Expression} (he : e ∈ node.expressions) :
    ∀ token ∈ e.tokens, token.draws = false := by
  have hdraws := h node hnode
  cases node with
  | sequence id kind groups => cases he
  | _ =>
      intro token htoken
      have hany := List.any_eq_false.mp hdraws e he
      exact Bool.eq_false_iff.mpr fun hdrawn => hany (List.any_eq_true.mpr ⟨token, htoken, hdrawn⟩)

end Script

/-! ## Evaluating without drawing -/

namespace Host

variable {σ ε : Type} (h : Host σ ε)

/-- The host with draws that all come out the same and leave no trace. -/
def quiet : Host σ ε := { h with random := fun low _ s => (low, s) }

theorem quiet_agrees : h.quiet.Agrees h := ⟨rfl, rfl, rfl, rfl, rfl, rfl⟩

theorem builtin_quiet {b : Builtin} (hrandom : b ≠ .random) (hlist : b ≠ .listRandom)
    (args : List Value) : b.call h.quiet args = b.call h args := by
  refine Builtin.call_congr h.quiet_agrees (fun hdraws => ?_) (fun _ => rfl) args
  cases b with
  | random => exact absurd rfl hrandom
  | listRandom => exact absurd rfl hlist
  | seedRandom | int | float | floor | ceiling | pow | min | max | turns | turnsSince | readCount
  | choiceCount | listCount | listMin | listMax | listAll | listInvert | listRange | listValue =>
      cases hdraws

theorem storyArguments_quiet (function : String) (operands : List Operand) :
    h.quiet.storyArguments function operands = h.storyArguments function operands := by
  induction operands with
  | nil => rfl
  | cons operand rest ih =>
      rw [Host.storyArguments, ih]
      rfl

/-- Only what was read as a function that draws is called as one. -/
theorem callKindOf_ne_builtin {s : σ} {f : FunctionRef} {b : Builtin} (hf : f.kind ≠ .builtin b) :
    h.callKindOf s f ≠ .builtin b := by
  unfold Host.callKindOf
  split
  · unfold Host.kindOf
    split
    · simp
    · split
      · simp
      · split <;> simp
  · exact hf

theorem callKind_quiet {kind : CallKind} (hrandom : kind ≠ .builtin .random)
    (hlist : kind ≠ .builtin .listRandom) (name : String) (operands : List Operand) :
    h.quiet.callKind kind name operands = h.callKind kind name operands := by
  cases kind with
  | builtin b =>
      have hcall : b.call h.quiet = b.call h := by
        funext args
        refine h.builtin_quiet ?_ ?_ args
        · rintro rfl
          exact hrandom rfl
        · rintro rfl
          exact hlist rfl
      unfold Host.callKind
      dsimp only
      rw [h.quiet_agrees.arguments_eq, hcall]
  | external | subscript =>
      unfold Host.callKind
      rw [h.quiet_agrees.arguments_eq]
      rfl
  | story =>
      unfold Host.callKind
      rw [storyArguments_quiet]
      rfl
  | unresolved => rfl

theorem call_quiet {f : FunctionRef} (hf : (Token.function f).draws = false)
    (operands : List Operand) : h.quiet.call f operands = h.call f operands := by
  obtain ⟨hrandom, hlist⟩ : f.kind ≠ .builtin .random ∧ f.kind ≠ .builtin .listRandom := by
    simpa [Token.draws] using hf
  funext s
  show (do return .ofOption (← h.quiet.callKind (h.callKindOf s f) f.name operands) :
    EStateM ε σ Operand) s = _
  rw [h.callKind_quiet (h.callKindOf_ne_builtin hrandom) (h.callKindOf_ne_builtin hlist)]
  rfl

theorem step_quiet {token : Token} (htoken : token.draws = false) (temp : Bool) (m : Machine) :
    h.quiet.step temp m token = h.step temp m token := by
  cases token with
  | function f =>
      unfold Host.step
      simp only [h.call_quiet htoken]
      rfl
  | keyword k => cases k <;> rfl
  | bool _ | int _ | float _ | str _ | list _ | path _ | operator _ _ | punct _ | ident _ => rfl

theorem run_quiet {tokens : List Token} (htokens : ∀ token ∈ tokens, token.draws = false)
    (temp : Bool) (m : Machine) (order : List Nat) :
    h.quiet.run temp tokens m order = h.run temp tokens m order := by
  induction order generalizing m with
  | nil => rfl
  | cons place rest ih =>
      unfold Host.run
      split
      · rfl
      · next token htoken =>
          rw [h.step_quiet (htokens token (List.mem_of_getElem? htoken))]
          exact bind_congr fun m => ih m

/-- Where no token draws, it does not matter how draws come out. -/
theorem evaluate_quiet {tokens : List Token} (htokens : ∀ token ∈ tokens, token.draws = false)
    (order : List Nat) : h.quiet.evaluate tokens order = h.evaluate tokens order := by
  unfold Host.evaluate
  rw [h.run_quiet htokens]
  rfl

end Host

/-! ## Sequences without drawing -/

namespace Progress

/-- What is no shuffle leaves the randomness alone and does not look at it. -/
theorem pick_of_draws_eq_false {kind : SequenceKind} (hkind : kind.draws = false) (groups : Nat)
    (p : Progress) (g g' : Random.Generator) :
    pick kind groups p g' = ((pick kind groups p g).1, (pick kind groups p g).2.1, g') := by
  unfold pick
  dsimp only
  split
  · rfl
  · cases kind with
    | sequence | cycle | onceOnly => rfl
    | shuffle | shuffleOnce | shuffleStop => cases hkind

end Progress

/-! ## States made of admitted nodes -/

/-- The content of a frame is made of nodes that are admitted. -/
def Frame.MadeOf (admits : Node → Prop) (frame : Frame) : Prop :=
  ∀ cursor ∈ frame.cursors, ∀ node ∈ cursor.content, admits node

/-- What a choice goes on with is made of nodes that are admitted. -/
structure PendingChoice.MadeOf (admits : Node → Prop) (choice : PendingChoice) : Prop where
  result : ∀ node ∈ choice.result, admits node
  resume : ∀ resumed ∈ choice.resume, resumed.1.MadeOf admits

/-- What a state may still run is made of nodes that are admitted. -/
structure State.MadeOf (admits : Node → Prop) (s : State) : Prop where
  frames : ∀ frame ∈ s.frames.items, frame.MadeOf admits
  choices : ∀ choice ∈ s.choices, choice.MadeOf admits

namespace Frame

variable {admits : Node → Prop} {frame : Frame}

theorem madeOf_atLocation {objects : Content} (hobjects : ∀ node ∈ objects, admits node)
    (kind : FrameKind) (location : Location) :
    (atLocation kind objects location).MadeOf admits := by
  intro cursor hcursor
  obtain rfl := List.mem_singleton.mp hcursor
  exact hobjects

theorem MadeOf.pushContent (h : frame.MadeOf admits) {content : Content}
    (hcontent : ∀ node ∈ content, admits node) : (frame.pushContent content).MadeOf admits := by
  unfold Frame.pushContent
  split
  · exact h
  · exact List.forall_mem_cons.mpr ⟨hcontent, h⟩

theorem MadeOf.next? (h : frame.MadeOf admits) {cursor : Cursor} {next : Frame}
    (hnext : frame.next? = some (cursor, next)) :
    next.MadeOf admits ∧ ∀ node, cursor.peek? = some node → admits node := by
  obtain ⟨_, outer, hcursors, hmem, houter⟩ := Frame.of_next? hnext
  refine ⟨?_, fun node hnode => h cursor hmem node (Story.mem_of_peek? hnode)⟩
  unfold MadeOf
  rw [hcursors]
  exact List.forall_mem_cons.mpr ⟨h cursor hmem, fun other hother => h other (houter hother)⟩

theorem MadeOf.resumePoint {frames : List Frame} (h : ∀ frame ∈ frames, frame.MadeOf admits)
    (scopes : List Scope) : ∀ resumed ∈ resumePoint frames scopes, resumed.1.MadeOf admits := by
  intro resumed hresumed
  obtain ⟨other, hother, hplace⟩ := samePlace_of_mem_resumePoint hresumed
  unfold MadeOf
  rw [hplace.cursors]
  exact h other hother

end Frame

namespace State

variable {admits : Node → Prop} {s : State}

theorem madeOf_ofSeed (seed : UInt64) : (ofSeed seed).MadeOf admits := ⟨nofun, nofun⟩

theorem MadeOf.congr {t : State} (h : s.MadeOf admits) (hframes : t.frames = s.frames)
    (hchoices : t.choices = s.choices) : t.MadeOf admits :=
  ⟨hframes ▸ h.frames, hchoices ▸ h.choices⟩

theorem MadeOf.pushContent (h : s.MadeOf admits) {content : Content}
    (hcontent : ∀ node ∈ content, admits node) : (s.pushContent content).MadeOf admits := by
  refine ⟨Stack.forall_mapTop h.frames fun frame htop => ?_, h.choices⟩
  exact (h.frames frame (List.mem_of_head? htop)).pushContent hcontent

theorem MadeOf.pushFrame (h : s.MadeOf admits) {frame : Frame} (hframe : frame.MadeOf admits) :
    (s.pushFrame frame).MadeOf admits :=
  ⟨List.forall_mem_cons.mpr ⟨hframe, h.frames⟩, h.choices⟩

theorem MadeOf.dropFrame (h : s.MadeOf admits) : s.dropFrame.MadeOf admits :=
  ⟨fun frame hframe => h.frames frame (List.mem_of_mem_tail hframe), h.choices⟩

theorem MadeOf.relocate (h : s.MadeOf admits) {objects : Content}
    (hobjects : ∀ node ∈ objects, admits node) (location : Location) :
    MadeOf admits { s with frames := s.frames.mapTop (·.relocate objects location) } :=
  ⟨Stack.forall_mapTop h.frames fun _ _ => Frame.madeOf_atLocation hobjects _ location, h.choices⟩

theorem MadeOf.past (h : s.MadeOf admits) {frame : Frame} (hframe : frame.MadeOf admits)
    (story : Story) (cursor : Cursor) : (story.past s cursor frame).MadeOf admits := by
  have hchoices : (story.past s cursor frame).choices = s.choices := by
    unfold Story.past Story.arrive
    split
    · split <;> rfl
    · rfl
  refine ⟨?_, hchoices ▸ h.choices⟩
  rw [Story.frames_past]
  exact Stack.forall_mapTop h.frames fun _ _ => hframe

theorem madeOf_takeChoice {choice : PendingChoice} (hchoice : choice.MadeOf admits) (s : State) :
    (s.takeChoice choice).MadeOf admits := by
  refine ⟨fun frame hframe => ?_, nofun⟩
  obtain ⟨resumed, hresumed, rfl⟩ := List.mem_map.mp hframe
  exact hchoice.resume resumed hresumed

theorem madeOf_choose {choice : PendingChoice} (hchoice : choice.MadeOf admits) (s : State) :
    (s.choose choice).MadeOf admits := by
  refine MadeOf.pushContent ?_ hchoice.result
  unfold State.echo
  split
  · exact madeOf_takeChoice hchoice s
  · exact (madeOf_takeChoice hchoice s).congr rfl rfl

theorem MadeOf.rest (h : s.MadeOf admits) : s.rest.MadeOf admits := by
  unfold State.rest
  dsimp only
  split
  · split
    · next choice hhead =>
        have hchoice := h.choices choice (List.mem_of_head? hhead)
        exact (madeOf_takeChoice hchoice _).pushContent hchoice.result
    · exact ⟨nofun, h.choices⟩
  · exact ⟨nofun, h.choices⟩

theorem MadeOf.endFlow (h : s.MadeOf admits) : s.endFlow.MadeOf admits := by
  unfold State.endFlow
  split
  · exact h.dropFrame
  · exact h.rest

theorem MadeOf.finishFrame (h : s.MadeOf admits) : s.finishFrame.MadeOf admits := by
  unfold State.finishFrame
  dsimp only
  split
  · exact h.dropFrame.rest
  · exact h.dropFrame.congr rfl rfl
  · exact h.dropFrame

theorem MadeOf.visitAll (h : s.MadeOf admits) (ids : List NodeId) :
    (s.visitAll ids).MadeOf admits := by
  induction ids generalizing s with
  | nil => exact h
  | cons id rest ih => exact ih (h.congr rfl rfl)

/-! ## Other randomness -/

/-- The state with other randomness. -/
def drawing (s : State) (g : Random.Generator) : State := { s with generator := g }

variable (s) (g : Random.Generator)

theorem nextGroup_drawing {kind : SequenceKind} (hkind : kind.draws = false) (id : NodeId)
    (groups : Nat) :
    (s.drawing g).nextGroup id kind groups =
      ((s.nextGroup id kind groups).1, (s.nextGroup id kind groups).2.drawing g) := by
  have hpick := Progress.pick_of_draws_eq_false hkind groups ((s.sequences.get? id).getD {})
    s.generator g
  have hsequences : (s.drawing g).sequences = s.sequences := rfl
  have hgenerator : (s.drawing g).generator = g := rfl
  unfold nextGroup
  rw [hsequences, hgenerator, hpick]
  rfl

theorem visitAll_drawing (ids : List NodeId) :
    (s.drawing g).visitAll ids = (s.visitAll ids).drawing g := by
  induction ids generalizing s with
  | nil => rfl
  | cons id rest ih => exact ih (s.visit id)

theorem past_drawing (story : Story) (cursor : Cursor) (frame : Frame) :
    story.past (s.drawing g) cursor frame = (story.past s cursor frame).drawing g := by
  unfold Story.past Story.arrive
  split
  · split <;> rfl
  · rfl

theorem takeChoice_drawing (choice : PendingChoice) :
    (s.drawing g).takeChoice choice = (s.takeChoice choice).drawing g := by
  have hmark : (s.drawing g).markTaken choice.knot choice.block choice.entry =
      (s.markTaken choice.knot choice.block choice.entry).drawing g := by
    unfold State.markTaken
    rw [show (s.drawing g).isTaken choice.knot choice.block choice.entry =
      s.isTaken choice.knot choice.block choice.entry from rfl]
    split <;> rfl
  unfold State.takeChoice
  rw [hmark]
  rfl

theorem choose_drawing (choice : PendingChoice) :
    (s.drawing g).choose choice = (s.choose choice).drawing g := by
  unfold State.choose State.echo
  rw [takeChoice_drawing]
  split <;> rfl

theorem rest_drawing : (s.drawing g).rest = s.rest.drawing g := by
  have hclear : (s.drawing g).clearFlow = s.clearFlow.drawing g := rfl
  have hvisible : (s.clearFlow.drawing g).visibleChoices = s.clearFlow.visibleChoices := rfl
  have hchoices : (s.clearFlow.drawing g).choices = s.clearFlow.choices := rfl
  unfold State.rest
  dsimp only
  rw [hclear, hvisible, hchoices]
  split
  · cases s.clearFlow.choices.head? with
    | some choice =>
        show ((s.clearFlow.drawing g).takeChoice choice).pushContent choice.result = _
        rw [takeChoice_drawing]
        rfl
    | none => rfl
  · rfl

theorem endFlow_drawing : (s.drawing g).endFlow = s.endFlow.drawing g := by
  unfold State.endFlow
  rw [show (s.drawing g).inThread = s.inThread from rfl, rest_drawing]
  split <;> rfl

theorem finishFrame_drawing : (s.drawing g).finishFrame = s.finishFrame.drawing g := by
  have hdrop : (s.drawing g).dropFrame = s.dropFrame.drawing g := rfl
  unfold State.finishFrame
  dsimp only
  rw [show (s.drawing g).topKind? = s.topKind? from rfl, hdrop, rest_drawing]
  split <;> rfl

end State

/-! ## Going on alike -/

namespace Story

/-- States made of admitted nodes that differ in their randomness only, and still do after a
failure. -/
def reseeded (admits : Node → Prop) : Coupling StoryFault State where
  same s t := s.MadeOf admits ∧ ∃ g, t = s.drawing g
  failed _ s t := s.MadeOf admits ∧ ∃ g, t = s.drawing g

section Reseeded

variable {admits : Node → Prop}

open Coupling

theorem reseeded_throw {α : Type} (fault : StoryFault) :
    (reseeded admits).Holds (throw fault : Flow α) := holds_throw fun _ _ hst => hst

/-- What changes a state without regard to its randomness, and leaves it made of admitted nodes. -/
theorem reseeded_modify {f : State → State} (hf : ∀ s g, f (s.drawing g) = (f s).drawing g)
    (hmade : ∀ s : State, s.MadeOf admits → (f s).MadeOf admits) :
    (reseeded admits).Holds (modify f : Flow Unit) := by
  refine holds_modify ?_
  rintro s _ ⟨hs, g, rfl⟩
  exact ⟨hmade s hs, g, hf s g⟩

/-- A look at a state that is made of admitted nodes, but not at its randomness. -/
theorem reseeded_get {β : Type} {f : State → Flow β} (hsame : ∀ s g, f (s.drawing g) = f s)
    (hf : ∀ s : State, s.MadeOf admits → (reseeded admits).Holds (f s)) :
    (reseeded admits).Holds (get >>= f) := by
  refine ⟨?_⟩
  rintro s _ ⟨hs, g, rfl⟩
  show Alike _ _ (f s s) (f (s.drawing g) (s.drawing g))
  rw [hsame]
  exact (hf s hs).alike s _ ⟨hs, g, rfl⟩

theorem reseeded_callExternal (name : String) (args : List Value) :
    (reseeded admits).Holds (callExternal name args) := by
  refine reseeded_get (fun _ _ => rfl) fun s _ => ?_
  cases s.externals.call name args with
  | error fault => exact reseeded_throw _
  | ok called =>
      refine Holds.bind (holds_pure called) fun (answer, externals) => ?_
      refine Holds.bind (reseeded_modify (fun _ _ => rfl) fun s hs => ?_) fun _ => holds_pure _
      exact hs.congr rfl rfl

end Reseeded

section Draws

variable {story : Story} (hdraws : story.script.DrawsNothing) {run : Call}
  (hrun : ∀ name args, (reseeded (· ∈ story.script.nodes)).Holds (run name args))

open Coupling

include hrun in
/-- The host follows where draws leave no trace, since nothing else looks at the randomness. -/
theorem couples_quiet : (story.host run).quiet.Couples (reseeded (· ∈ story.script.nodes)) where
  fail _ _ _ hst := hst
  looks := by
    rintro s _ ⟨_, g, rfl⟩
    exact ⟨rfl, rfl, rfl, rfl, rfl, rfl, rfl⟩
  set := by
    rintro s _ name value store ⟨hs, g, rfl⟩ _
    exact ⟨hs.congr rfl rfl, g, rfl⟩
  declare := by
    rintro s _ name value ⟨hs, g, rfl⟩
    exact ⟨hs.congr rfl rfl, g, rfl⟩
  random _ _ _ _ hst := ⟨rfl, hst⟩
  reseed := by
    rintro seed s _ ⟨hs, g, rfl⟩
    exact ⟨hs.congr rfl rfl, .ofSeed seed, rfl⟩
  callStory := hrun
  callExternal := reseeded_callExternal

include hdraws hrun in
/-- Nodes of a script that draws nothing are run without regard to the randomness, if the functions
that they call are. -/
theorem couples_reseeded :
    story.CouplesIn run (reseeded (· ∈ story.script.nodes)) (· ∈ story.script.nodes) where
  fail _ _ _ hst := hst
  store := by
    rintro s _ ⟨_, g, rfl⟩
    rfl
  currentKnot? := by
    rintro s _ ⟨_, g, rfl⟩
    rfl
  declare := by
    rintro name value s _ ⟨hs, g, rfl⟩
    exact ⟨hs.congr rfl rfl, g, rfl⟩
  addAlias := by
    rintro name target s _ ⟨hs, g, rfl⟩
    exact ⟨hs.congr rfl rfl, g, rfl⟩
  parts hnode _ hpart _ hinner := Script.mem_nodes_of_part hnode hpart hinner
  evaluate hnode e he := by
    show (reseeded (· ∈ story.script.nodes)).Holds ((story.host run).evaluate e.tokens e.order)
    rw [← (story.host run).evaluate_quiet (hdraws.expressions hnode he)]
    exact (couples_quiet hrun).holds_evaluate (fun _ _ hst => hst) _ _
  nextGroup := by
    rintro id kind groups hnode s _ ⟨hs, g, rfl⟩
    have hgroup := s.nextGroup_drawing g (hdraws _ hnode) id groups.length
    exact ⟨(congrArg Prod.fst hgroup).symm, hs.congr rfl rfl, g, congrArg Prod.snd hgroup⟩

end Draws

section Steps

variable {story : Story} {run : Call} {admits : Node → Prop}
  (hk : story.CouplesIn run (reseeded admits) admits)
  (hknots : ∀ knot ∈ story.script.knots, ∀ node ∈ knot.objects, admits node)

open Coupling

/-! ## Diverts -/

include hknots in
/-- The knot at a place is one of the script. -/
theorem reseeded_knotAt {β : Type} (id : KnotId) {f : Knot → Flow β}
    (hf : ∀ knot : Knot, (∀ node ∈ knot.objects, admits node) → (reseeded admits).Holds (f knot)) :
    (reseeded admits).Holds (story.knotAt id >>= f) := by
  unfold Story.knotAt
  cases hknot : story.script.knot? id with
  | none => exact reseeded_throw _
  | some knot => exact hf knot (hknots knot (List.mem_of_getElem? hknot))

include hk in
/-- Binding parameters and counting visits is the end of every move to a place. -/
theorem reseeded_settle (address : Address) (knot : Knot) (arguments : List Argument)
    (location : Location) :
    (reseeded admits).Holds (do
      bindAt address knot arguments
      modify (·.visitAll location.visits)) := by
  refine (hk.holds_bindAt address knot arguments).bind fun _ => ?_
  exact reseeded_modify (fun s g => s.visitAll_drawing g _) fun _ hs => hs.visitAll _

theorem reseeded_relocate {knot : Knot} (hknot : ∀ node ∈ knot.objects, admits node)
    (location : Location) : (reseeded admits).Holds (relocate knot location) := by
  refine ⟨?_⟩
  rintro s _ ⟨hs, g, rfl⟩
  show Alike _ _
    ((if s.frames.isEmpty then throw (.navigation .emptyFrameStack)
      else set { s with frames := s.frames.mapTop (·.relocate knot.objects location) } :
        Flow Unit) s)
    ((if s.frames.isEmpty then throw (.navigation .emptyFrameStack)
      else set { s.drawing g with frames := s.frames.mapTop (·.relocate knot.objects location) } :
        Flow Unit) (s.drawing g))
  split
  · exact ⟨rfl, hs, g, rfl⟩
  · exact ⟨rfl, hs.relocate hknot location, g, rfl⟩

variable {args : List Expression}
  (hargs : ∀ e ∈ args, (reseeded admits).Holds (e.evaluate (story.host run)))

include hk hknots hargs

theorem reseeded_goto (target : String) : (reseeded admits).Holds (story.goto run target args) := by
  unfold Story.goto
  split
  · exact reseeded_modify (fun _ _ => rfl) fun _ _ => ⟨nofun, nofun⟩
  split
  · exact reseeded_modify (fun s g => s.endFlow_drawing g) fun _ hs => hs.endFlow
  refine reseeded_get (fun _ _ => rfl) fun s _ => ?_
  refine (hk.holds_find target).bind fun (address, location) => ?_
  refine (hk.holds_divertArguments hargs).bind fun arguments => ?_
  refine reseeded_knotAt hknots _ fun knot hknot => ?_
  refine (reseeded_relocate hknot location).bind fun _ => ?_
  extract_lets settle
  have hsettle : (reseeded admits).Holds (settle ()) :=
    reseeded_settle hk address knot arguments location
  split
  · refine Holds.bind (reseeded_modify (fun _ _ => rfl) fun s hs => ?_) fun _ => hsettle
    exact hs.congr rfl rfl
  · exact hsettle

theorem reseeded_call (kind : Nat → FrameKind) (target : String) :
    (reseeded admits).Holds (story.call run kind target args) := by
  unfold Story.call
  refine (hk.holds_find target).bind fun (address, location) => ?_
  refine (hk.holds_divertArguments hargs).bind fun arguments => ?_
  refine reseeded_knotAt hknots _ fun knot hknot => ?_
  refine Holds.bind (reseeded_modify (fun _ _ => rfl) fun s hs => ?_) fun _ =>
    reseeded_settle hk address knot arguments location
  exact hs.pushFrame (Frame.madeOf_atLocation hknot _ location)

omit hargs in
theorem reseeded_divert {d : Divert}
    (hargs : ∀ e ∈ d.args, (reseeded admits).Holds (e.evaluate (story.host run))) :
    (reseeded admits).Holds (story.divert run d) := by
  unfold Story.divert
  split
  · unfold Story.leaveTunnel
    refine reseeded_get (fun _ _ => rfl) fun s _ => ?_
    split
    · refine Holds.bind (reseeded_modify (fun _ _ => rfl) fun _ hs => hs.dropFrame) fun _ => ?_
      split
      · exact reseeded_goto hk hknots hargs _
      · exact holds_pure _
    · exact reseeded_throw _
  · refine reseeded_get (fun _ _ => rfl) fun s _ => ?_
    split
    · exact reseeded_throw _
    · split
      · exact reseeded_call hk hknots hargs _ _
      · exact reseeded_call hk hknots hargs _ _
      · exact reseeded_goto hk hknots hargs _

omit hk hknots hargs in
theorem reseeded_leaveFunction (value : Option Value) :
    (reseeded admits).Holds (leaveFunction value) := by
  refine reseeded_get (fun _ _ => rfl) fun s _ => ?_
  split
  · exact reseeded_modify (fun _ _ => rfl) fun _ hs => hs.dropFrame.congr rfl rfl
  · exact reseeded_throw _

/-! ## Offers -/

omit hknots hargs

theorem reseeded_offerEntry {block : Block} (hblock : ∀ resumed ∈ block.resume,
    resumed.1.MadeOf admits) (place : Nat) {entry : Entry}
    (hconditions : ∀ e ∈ entry.conditions, (reseeded admits).Holds (e.evaluate (story.host run)))
    (htext : ∀ node ∈ entry.text, admits node) (hresult : ∀ node ∈ entry.result, admits node) :
    (reseeded admits).Holds (story.offerEntry run block place entry) := by
  unfold Story.offerEntry
  refine reseeded_get (fun _ _ => rfl) fun s _ => ?_
  split
  · exact holds_pure _
  refine (State.Couples.holds_allHold hconditions).bind fun holds => ?_
  split
  · refine (hk.holds_choiceText htext).bind fun rendered => ?_
    refine reseeded_modify (fun _ _ => rfl) fun s hs => ⟨hs.frames, ?_⟩
    intro choice hchoice
    rcases List.mem_append.mp hchoice with hold | hnew
    · exact hs.choices choice hold
    · obtain rfl := List.mem_singleton.mp hnew
      exact ⟨hresult, hblock⟩
  · exact holds_pure _

theorem reseeded_offerEntries {block : Block} (hblock : ∀ resumed ∈ block.resume,
    resumed.1.MadeOf admits) (place : Nat) {entries : List Entry}
    (hconditions : ∀ entry ∈ entries, ∀ e ∈ entry.conditions,
      (reseeded admits).Holds (e.evaluate (story.host run)))
    (hparts : ∀ entry ∈ entries, (∀ node ∈ entry.text, admits node) ∧
      ∀ node ∈ entry.result, admits node) :
    (reseeded admits).Holds (story.offerEntries run block place entries) := by
  induction entries generalizing place with
  | nil => exact holds_pure _
  | cons entry rest ih =>
      obtain ⟨hconditions, hconditions'⟩ := List.forall_mem_cons.mp hconditions
      obtain ⟨⟨htext, hresult⟩, hparts'⟩ := List.forall_mem_cons.mp hparts
      refine (reseeded_offerEntry hk hblock place hconditions htext hresult).bind fun _ => ?_
      exact ih _ hconditions' hparts'

theorem reseeded_offer (knot : KnotId) {id : NodeId} {entries : List Entry}
    (hnode : admits (.choice id entries)) :
    (reseeded admits).Holds (story.offer run knot id entries) := by
  unfold Story.offer
  refine reseeded_get (fun _ _ => rfl) fun s hs => ?_
  split
  · exact reseeded_throw _
  refine Holds.bind (reseeded_offerEntries hk (Frame.MadeOf.resumePoint hs.frames _) 0 ?_ ?_)
    fun _ => ?_
  · intro entry hentry e he
    exact hk.evaluate hnode e (List.mem_flatMap.mpr ⟨entry, hentry, he⟩)
  · intro entry hentry
    have hpart (part : Content) (hpart : part ∈ [entry.text, entry.result]) :=
      hk.parts hnode part (List.mem_flatMap.mpr ⟨entry, hentry, hpart⟩)
    exact ⟨hpart _ List.mem_cons_self, hpart _ (List.mem_cons_of_mem _ List.mem_cons_self)⟩
  · dsimp only
    split
    · refine reseeded_get (fun _ _ => rfl) fun s _ => ?_
      split
      · exact reseeded_throw _
      · exact reseeded_modify (fun _ _ => rfl) fun _ hs => hs.dropFrame
    · exact reseeded_modify (fun s g => s.rest_drawing g) fun _ hs => hs.rest

/-! ## Steps -/

include hknots

theorem reseeded_execute (knot : KnotId) {node : Node} (hnode : admits node) :
    (reseeded admits).Holds (story.execute run knot node) := by
  have hprint (f : Output → Output) : (reseeded admits).Holds (modifyOutput f) :=
    reseeded_modify (fun _ _ => rfl) fun _ hs => hs.congr rfl rfl
  have hpush {content : Content} (hcontent : content = [] ∨ content ∈ node.runs) :
      (reseeded admits).Holds (modify (·.pushContent content) : Flow Unit) := by
    refine reseeded_modify (fun _ _ => rfl) fun s hs => hs.pushContent ?_
    rcases hcontent with rfl | hcontent
    · nofun
    · exact hk.parts hnode content (node.runs_subset_parts hcontent)
  cases node with
  | text text => exact hprint (·.pushText text)
  | lineBreak => exact hprint (·.lineBreak)
  | glue => exact hprint (·.glue)
  | tag tag => exact hprint (·.pushTag tag)
  | marker _ | global _ | list _ => exact holds_pure _
  | interpolation e =>
      refine (hk.evaluate hnode e List.mem_cons_self).value.bind fun value => ?_
      cases value with
      | none => exact holds_pure _
      | some value => exact hprint _
  | logic e =>
      refine (hk.evaluate hnode e List.mem_cons_self).bind fun evaluation => ?_
      split
      · exact reseeded_leaveFunction _
      · exact holds_pure _
  | divert d => exact reseeded_divert hk hknots (hk.evaluate hnode)
  | choice id entries => exact reseeded_offer hk knot hnode
  | conditional subject branches otherwise =>
      refine (hk.holds_branch hnode).bind fun place => ?_
      exact hpush (branchContent_mem subject branches otherwise place)
  | sequence id kind groups =>
      refine (hk.holds_group hnode).bind fun place => ?_
      exact hpush (groupContent_mem id kind groups place)

/-- A step goes on alike from states that differ in their randomness only. -/
theorem reseeded_step : (reseeded admits).Holds (story.step run) := by
  refine ⟨?_⟩
  rintro s _ ⟨hs, g, rfl⟩
  cases htop : s.frames.top? with
  | none =>
      have htop' : (s.drawing g).frames.top? = none := htop
      rw [step_of_idle htop, step_of_idle htop']
      exact ⟨rfl, hs.rest, g, s.rest_drawing g⟩
  | some frame =>
      have htop' : (s.drawing g).frames.top? = some frame := htop
      have hframe := hs.frames frame (List.mem_of_head? htop)
      cases hnext : frame.next? with
      | none =>
          rw [step_of_finished htop hnext, step_of_finished htop' hnext]
          exact ⟨rfl, hs.finishFrame, g, s.finishFrame_drawing g⟩
      | some next =>
          obtain ⟨cursor, next⟩ := next
          obtain ⟨hmade, hpeek⟩ := hframe.next? hnext
          have hpast : (reseeded admits).same (story.past s cursor next)
              (story.past (s.drawing g) cursor next) :=
            ⟨hs.past hmade story cursor, g, s.past_drawing g story cursor next⟩
          cases hnode : cursor.peek? with
          | none =>
              rw [step_of_passed htop hnext hnode, step_of_passed htop' hnext hnode]
              exact ⟨rfl, hpast⟩
          | some node =>
              rw [step_of_node htop hnext hnode, step_of_node htop' hnext hnode]
              exact (reseeded_execute hk hknots _ (hpeek node hnode)).alike _ _ hpast

omit hk hknots in
theorem reseeded_repeatWhile {test : State → Bool} (htest : ∀ s g, test (s.drawing g) = test s)
    {body : Flow Unit} (hbody : (reseeded admits).Holds body) (limit remaining : Nat) :
    (reseeded admits).Holds (Flow.repeatWhile test limit body remaining) := by
  induction remaining with
  | zero =>
      refine reseeded_get (fun s g => by rw [htest]) fun s _ => ?_
      split
      · exact reseeded_throw _
      · exact holds_pure _
  | succ remaining ih =>
      refine reseeded_get (fun s g => by rw [htest]) fun s _ => ?_
      split
      · exact hbody.bind fun _ => ih
      · exact holds_pure _

theorem reseeded_runIn (name : String) (arguments : List Argument) :
    (reseeded admits).Holds (story.runIn run name arguments) := by
  unfold Story.runIn Story.runBy
  split
  · exact reseeded_throw _
  next id _ =>
    have hlocate := story.script.locate_ne_emptyFrameStack (.knot id)
    refine (hk.holds_ofNavigation hlocate).bind fun location => ?_
    refine reseeded_knotAt hknots _ fun knot hknot => ?_
    split
    · refine reseeded_get (fun _ _ => rfl) fun s _ => ?_
      refine Holds.bind (reseeded_modify (fun _ _ => rfl) fun s hs => ?_) fun _ => ?_
      · exact hs.pushFrame (Frame.madeOf_atLocation hknot _ location)
      refine (hk.holds_bindParameters knot arguments).bind fun _ => ?_
      refine Holds.bind (reseeded_modify (fun s g => s.visitAll_drawing g _)
        fun _ hs => hs.visitAll _) fun _ => ?_
      refine Holds.bind (holds_modifyGet ?_) fun outer => ?_
      · rintro s _ ⟨hs, g, rfl⟩
        exact ⟨rfl, hs.congr rfl rfl, g, rfl⟩
      refine (reseeded_repeatWhile (fun _ _ => rfl) (reseeded_step hk hknots) _ _).bind fun _ => ?_
      refine holds_modifyGet ?_
      rintro s _ ⟨hs, g, rfl⟩
      exact ⟨rfl, hs.congr rfl rfl, g, rfl⟩
    · exact reseeded_throw _

theorem reseeded_startAt (path : String) : (reseeded admits).Holds (story.startAt path) := by
  unfold Story.startAt
  split
  · exact reseeded_throw _
  next address _ =>
    have hlocate := story.script.locate_ne_emptyFrameStack address
    refine (hk.holds_ofNavigation hlocate).bind fun location => ?_
    refine reseeded_knotAt hknots _ fun knot hknot => ?_
    refine Holds.bind (reseeded_modify (fun _ _ => rfl) fun s _ => ?_) fun _ => ?_
    · let fresh := { s with choices := [], frames := ∅, store := s.store.withScopes [] }
      have hfresh : fresh.MadeOf admits := ⟨nofun, nofun⟩
      exact hfresh.pushFrame (Frame.madeOf_atLocation hknot _ location)
    refine (hk.holds_bindAt address knot []).bind fun _ => ?_
    refine reseeded_modify (fun s g => ?_) fun s hs => (hs.visitAll _).congr rfl rfl
    rw [State.visitAll_drawing]
    rfl

end Steps

section Story

variable {story : Story} (hdraws : story.script.DrawsNothing)

include hdraws

open Coupling

/-- Functions go on alike, to whatever depth they call others. -/
theorem reseeded_runFunction (depth : Nat) (name : String) (args : List Argument) :
    (reseeded (· ∈ story.script.nodes)).Holds (story.runFunction depth name args) := by
  induction depth generalizing name args with
  | zero => exact reseeded_throw _
  | succ depth ih =>
      refine reseeded_runIn (couples_reseeded hdraws ih) ?_ name args
      exact fun knot hknot node hnode => Script.mem_nodes_of_knot hknot hnode

theorem couples_callFunction : story.CouplesIn story.callFunction
    (reseeded (· ∈ story.script.nodes)) (· ∈ story.script.nodes) :=
  couples_reseeded hdraws (reseeded_runFunction hdraws _)

end Story

end Story

end Skein
