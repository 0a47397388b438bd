import Skein.Proofs.Story.Draws

set_option autoImplicit false

/-!
# Story: what the seed can change

The seed of a story is only where its randomness starts: nothing that a story does looks it up
again.  So stories that differ in their seeds only begin with states that differ in their
randomness only; and where the script draws nothing they go on alike, whatever the host asks and
whether or not it is done.  All that the host is told is the same.
-/

namespace Skein

namespace Story

/-- The story with another seed. -/
def withSeed (story : Story) (seed : UInt64) : Story :=
  { story with config := { story.config with seed := seed } }

/-! ## The seed is looked up only at the start -/

section WithSeed

variable (story : Story) (seed : UInt64) (run : Call)

theorem divertArguments_withSeed (args : List Expression) :
    (story.withSeed seed).divertArguments run args = story.divertArguments run args := by
  induction args with
  | nil => rfl
  | cons e rest ih =>
      unfold divertArguments
      rw [ih]
      rfl

theorem goto_withSeed : (story.withSeed seed).goto run = story.goto run := by
  funext target args
  unfold goto
  rw [divertArguments_withSeed]
  rfl

theorem call_withSeed : (story.withSeed seed).call run = story.call run := by
  funext kind target args
  unfold call
  rw [divertArguments_withSeed]
  rfl

theorem divert_withSeed : (story.withSeed seed).divert run = story.divert run := by
  funext d
  unfold divert leaveTunnel
  rw [goto_withSeed, call_withSeed]

mutual

theorem renderNode_withSeed (out : ChoiceText) :
    (node : Node) → (story.withSeed seed).renderNode run out node = story.renderNode run out node
  | .text _ | .tag _ | .marker _ | .lineBreak | .glue | .divert _ | .choice _ _ | .global _
  | .list _ | .interpolation _ | .logic _ => rfl
  | .conditional subject branches otherwise => by
      refine bind_congr fun place => ?_
      cases place with
      | some place => exact renderBranch_withSeed out place branches
      | none => exact renderOptional_withSeed out otherwise
  | .sequence id kind groups => by
      refine bind_congr fun place => ?_
      cases place with
      | some place => exact renderGroup_withSeed out place groups
      | none => rfl

theorem render_withSeed (out : ChoiceText) :
    (content : List Node) →
      (story.withSeed seed).render run out content = story.render run out content
  | [] => rfl
  | node :: rest => by
      unfold render
      rw [renderNode_withSeed out node]
      exact bind_congr fun out => render_withSeed out rest

theorem renderBranch_withSeed (out : ChoiceText) :
    (place : Nat) → (branches : List Branch) →
      (story.withSeed seed).renderBranch run out place branches =
        story.renderBranch run out place branches
  | _, [] => by simp only [renderBranch]
  | 0, ⟨_, content⟩ :: _ => render_withSeed out content
  | place + 1, ⟨_, _⟩ :: rest => renderBranch_withSeed out place rest

theorem renderOptional_withSeed (out : ChoiceText) :
    (content : Option (List Node)) →
      (story.withSeed seed).renderOptional run out content = story.renderOptional run out content
  | none => rfl
  | some content => render_withSeed out content

theorem renderGroup_withSeed (out : ChoiceText) :
    (place : Nat) → (groups : List (List Node)) →
      (story.withSeed seed).renderGroup run out place groups =
        story.renderGroup run out place groups
  | _, [] => by simp only [renderGroup]
  | 0, group :: _ => render_withSeed out group
  | place + 1, _ :: rest => renderGroup_withSeed out place rest

end

theorem allHold_withSeed (conditions : List Expression) :
    (story.withSeed seed).allHold run conditions = story.allHold run conditions := by
  induction conditions with
  | nil => rfl
  | cons condition rest ih =>
      unfold allHold
      rw [ih]
      rfl

theorem offerEntries_withSeed (block : Block) (place : Nat) (entries : List Entry) :
    (story.withSeed seed).offerEntries run block place entries =
      story.offerEntries run block place entries := by
  induction entries generalizing place with
  | nil => rfl
  | cons entry rest ih =>
      unfold offerEntries offerEntry choiceText
      rw [ih, allHold_withSeed, render_withSeed]

theorem execute_withSeed (knot : KnotId) (node : Node) :
    (story.withSeed seed).execute run knot node = story.execute run knot node := by
  cases node with
  | divert d => exact congrFun (story.divert_withSeed seed run) d
  | choice id entries =>
      show (story.withSeed seed).offer run knot id entries = story.offer run knot id entries
      unfold offer
      simp only [offerEntries_withSeed]
      rfl
  | _ => rfl

theorem step_withSeed : (story.withSeed seed).step run = story.step run := by
  unfold step
  simp only [execute_withSeed]
  rfl

theorem runFunction_withSeed (depth : Nat) :
    (story.withSeed seed).runFunction depth = story.runFunction depth := by
  induction depth with
  | zero => rfl
  | succ depth ih =>
      unfold runFunction runIn
      rw [ih, step_withSeed]
      rfl

theorem callFunction_withSeed : (story.withSeed seed).callFunction = story.callFunction :=
  story.runFunction_withSeed seed _

theorem load_withSeed : (story.withSeed seed).load = story.load := by
  unfold load declareAll declareGlobal environment
  rw [callFunction_withSeed]
  rfl

theorem continueLine_withSeed : (story.withSeed seed).continueLine = story.continueLine := by
  unfold continueLine
  rw [callFunction_withSeed, step_withSeed]
  rfl

end WithSeed

/-! ## What the host is told -/

/-- What a story answers to a request that it does. -/
inductive Answer where
  | done
  | line (text : String)
  /-- The lines that were read; nothing if there are more. -/
  | lines (text : Option String)
  | observer (id : ObserverId)
  deriving DecidableEq

/-- What the host can see of a story between two requests. -/
structure View where
  /-- The tags of the line read last. -/
  tags : List String
  /-- Of each choice that is shown its text, its tags, and whether a thread offered it. -/
  choices : List (String × List String × Bool)
  canContinue : Bool
  isFinished : Bool
  globals : Store
  turn : Nat
  visitCount : String → Except StoryFault Nat
  turnsSince : String → Except StoryFault Int

/-- What the host learns from one request. -/
structure Report where
  answer : Except StoryFault Answer
  view : View

section Host

variable (story : Story)

/-- Does what the host asks, and answers. -/
def respond : Request → Flow Answer
  | .continueLine => do return .line (← story.continueLine)
  | .continueMaximally bound => do return .lines (← story.continueMaximally bound)
  | .choose index => do
    chooseIndex index
    return .done
  | .choosePath path => do
    story.choosePath path
    return .done
  | .setVariable name value => do
    setVariable name value
    return .done
  | .observe name => do return .observer (← observe name)
  | .bind name f => do
    Story.bind name f
    return .done

/-- What the host can see of a state. -/
def view (s : State) : View where
  tags := s.lineTags
  choices := s.visibleChoices.map fun choice => (choice.text, choice.tags, choice.fromThread)
  canContinue := s.canContinue
  isFinished := s.isFinished
  globals := s.store
  turn := s.turn
  visitCount := story.visitCount s
  turnsSince := story.turnsSince s

/-- What the host learns from a request, and the state after it. -/
def report (request : Request) (s : State) : Report × State :=
  match story.respond request s with
  | .ok answer t => ({ answer := .ok answer, view := story.view t }, t)
  | .error fault t => ({ answer := .error fault, view := story.view t }, t)

/-- What the host learns from requests, one after the other; it goes on after failures. -/
def reports : List Request → State → List Report
  | [], _ => []
  | request :: rest, s => (story.report request s).1 :: reports rest (story.report request s).2

/-- What the host learns from a story that it starts and asks for things. -/
def playback (requests : List Request) : Except StoryFault (View × List Report) :=
  story.start.map fun s => (story.view s, story.reports requests s)

end Host

section WithSeed

variable (story : Story) (seed : UInt64)

theorem respond_withSeed : (story.withSeed seed).respond = story.respond := by
  funext request
  cases request with
  | continueLine | continueMaximally bound =>
      unfold respond
      simp only [continueMaximally, continueLine_withSeed]
  | choose _ | choosePath _ | setVariable _ _ | observe _ | bind _ _ => rfl

theorem reports_withSeed (requests : List Request) (s : State) :
    (story.withSeed seed).reports requests s = story.reports requests s := by
  have hreport : (story.withSeed seed).report = story.report := by
    unfold report
    rw [respond_withSeed]
    rfl
  induction requests generalizing s with
  | nil => rfl
  | cons request rest ih =>
      unfold reports
      rw [hreport, ih]

/-- A story with a seed starts from the randomness of that seed and then plays as without. -/
theorem playback_withSeed (requests : List Request) :
    (story.withSeed seed).playback requests =
      match story.load (.ofSeed seed) with
      | .ok _ s => .ok (story.view s, story.reports requests s)
      | .error fault _ => .error fault := by
  unfold playback start
  rw [load_withSeed]
  show Except.map _ (match story.load (.ofSeed seed) with
    | .ok _ s => .ok s
    | .error fault _ => .error fault) = _
  cases story.load (.ofSeed seed) with
  | error fault s => rfl
  | ok _ s =>
      show Except.ok (story.view s, (story.withSeed seed).reports requests s) = _
      rw [reports_withSeed]

end WithSeed

/-! ## Requests without drawing -/

section Requests

variable {story : Story} (hdraws : story.script.DrawsNothing)

open Coupling Outcome

theorem reseeded_chooseIndex {admits : Node → Prop} (index : Nat) :
    (reseeded admits).Holds (chooseIndex index) := by
  refine ⟨?_⟩
  rintro s _ ⟨hs, g, rfl⟩
  have hget (s : State) : (get : Flow State) s = .ok s s := rfl
  have hvisible : (s.drawing g).visibleChoices = s.visibleChoices := rfl
  have hstatus : (s.drawing g).status = s.status := rfl
  unfold chooseIndex
  rw [run_of_eq_ok (hget s), run_of_eq_ok (hget (s.drawing g)), hvisible, hstatus]
  cases hchoice : s.visibleChoices[index]? with
  | none => exact ⟨rfl, hs, g, rfl⟩
  | some choice =>
      have hmem : choice ∈ s.choices := (List.mem_filter.mp (List.mem_of_getElem? hchoice)).1
      dsimp only
      split
      · exact ⟨rfl, State.madeOf_choose (hs.choices choice hmem) s, g, s.choose_drawing g choice⟩
      · exact ⟨rfl, hs, g, rfl⟩

theorem reseeded_modifyStore {admits : Node → Prop} (f : Store → Store) :
    (reseeded admits).Holds (Flow.modifyStore f) :=
  reseeded_modify (fun _ _ => rfl) fun _ hs => hs.congr rfl rfl

theorem reseeded_setVariable {admits : Node → Prop} (name : String) (value : Value) :
    (reseeded admits).Holds (setVariable name value) := by
  have hcheck : (reseeded admits).Holds (checkValue value) := by
    cases value with
    | list l =>
        refine reseeded_get (fun _ _ => rfl) fun s _ => ?_
        cases s.store.registry.check l with
        | ok _ => exact holds_pure _
        | error fault => exact reseeded_throw _
    | bool _ | int _ | float _ | string _ => exact holds_pure _
  refine reseeded_get (fun _ _ => rfl) fun s _ => ?_
  dsimp only
  split
  · refine hcheck.bind fun _ => ?_
    cases s.store.set name value with
    | ok store => exact Holds.bind (holds_pure store) fun _ => reseeded_modifyStore _
    | error fault => exact reseeded_throw _
  · exact reseeded_throw _

include hdraws

theorem reseeded_storyStep :
    (reseeded (· ∈ story.script.nodes)).Holds (story.step story.callFunction) :=
  reseeded_step (couples_callFunction hdraws) fun _ hknot _ hnode =>
    Script.mem_nodes_of_knot hknot hnode

theorem reseeded_continueLine :
    (reseeded (· ∈ story.script.nodes)).Holds story.continueLine := by
  refine reseeded_get (fun _ _ => rfl) fun s _ => ?_
  split
  · refine (reseeded_repeatWhile (fun _ _ => rfl) (reseeded_storyStep hdraws) _ _).bind fun _ => ?_
    refine ⟨?_⟩
    rintro s _ ⟨hs, g, rfl⟩
    exact ⟨rfl, hs.congr rfl rfl, g, rfl⟩
  · exact reseeded_throw _

theorem reseeded_readLines (read : List String) (bound : Nat) :
    (reseeded (· ∈ story.script.nodes)).Holds (readLinesBy story.continueLine read bound) := by
  induction bound generalizing read with
  | zero =>
      refine reseeded_get (fun _ _ => rfl) fun s _ => ?_
      split
      · exact holds_pure _
      · exact holds_pure _
  | succ bound ih =>
      refine reseeded_get (fun _ _ => rfl) fun s _ => ?_
      split
      · exact (reseeded_continueLine hdraws).bind fun line => ih _
      · exact holds_pure _

theorem reseeded_choosePath (path : String) :
    (reseeded (· ∈ story.script.nodes)).Holds (story.choosePath path) :=
  reseeded_startAt (couples_callFunction hdraws)
    (fun _ hknot _ hnode => Script.mem_nodes_of_knot hknot hnode) path

/-- Whatever the host asks, it is answered without regard to the randomness. -/
theorem reseeded_respond (request : Request) :
    (reseeded (· ∈ story.script.nodes)).Holds (story.respond request) := by
  cases request with
  | continueLine => exact (reseeded_continueLine hdraws).bind fun _ => holds_pure _
  | continueMaximally bound =>
      refine Holds.bind ?_ fun _ => holds_pure _
      exact (reseeded_readLines hdraws [] bound).bind fun _ => holds_pure _
  | choose index => exact (reseeded_chooseIndex index).bind fun _ => holds_pure _
  | choosePath path => exact (reseeded_choosePath hdraws path).bind fun _ => holds_pure _
  | setVariable name value => exact (reseeded_setVariable name value).bind fun _ => holds_pure _
  | observe name =>
      refine Holds.bind (holds_modifyGet ?_) fun _ => holds_pure _
      rintro s _ ⟨hs, g, rfl⟩
      exact ⟨rfl, hs.congr rfl rfl, g, rfl⟩
  | bind name f =>
      refine Holds.bind (reseeded_modify (fun _ _ => rfl) fun s hs => ?_) fun _ => holds_pure _
      exact hs.congr rfl rfl

/-- Declaring everything may draw in the first values of variables, which are expressions of the
script as well. -/
theorem reseeded_declareAll :
    (reseeded (· ∈ story.script.nodes)).Holds story.declareAll := by
  have hk := couples_callFunction hdraws
  refine (holds_forM fun l _ => ?_).bind fun _ => holds_forM fun g hg => ?_
  · unfold declareList
    refine reseeded_get (fun _ _ => rfl) fun s _ => ?_
    refine (hk.holds_ofValue _).bind fun (id, registry) => ?_
    exact (reseeded_modifyStore _).bind fun _ => reseeded_modifyStore _
  · obtain ⟨node, hnode, hglobal⟩ := List.mem_filterMap.mp hg
    have hinit : g.init ∈ node.expressions := by
      cases node with
      | global declared =>
          obtain rfl := Option.some.inj hglobal
          exact List.mem_cons_self
      | _ => cases hglobal
    unfold declareGlobal
    refine (hk.evaluate hnode g.init hinit).value.bind fun value => ?_
    cases value with
    | none => exact reseeded_throw _
    | some value =>
        dsimp only
        split
        · exact reseeded_modifyStore _
        · exact reseeded_modifyStore _

theorem reseeded_load : (reseeded (· ∈ story.script.nodes)).Holds story.load := by
  refine (reseeded_declareAll hdraws).bind fun _ => ?_
  cases story.entryPoint? with
  | none => exact reseeded_throw _
  | some path => exact reseeded_choosePath hdraws path

/-- A request tells the host the same and leaves states that differ in their randomness only. -/
theorem report_of_reseeded {s t : State} (hst : (reseeded (· ∈ story.script.nodes)).same s t)
    (request : Request) : (story.report request s).1 = (story.report request t).1 ∧
      (reseeded (· ∈ story.script.nodes)).same (story.report request s).2
        (story.report request t).2 := by
  have halike := (reseeded_respond hdraws request).alike s t hst
  unfold report
  cases hs : story.respond request s with
  | ok answer u =>
      cases ht : story.respond request t with
      | ok answer' v =>
          rw [hs, ht] at halike
          obtain ⟨rfl, hu, g, rfl⟩ := halike
          exact ⟨rfl, hu, g, rfl⟩
      | error fault v =>
          rw [hs, ht] at halike
          exact halike.elim
  | error fault u =>
      cases ht : story.respond request t with
      | ok answer v =>
          rw [hs, ht] at halike
          exact halike.elim
      | error fault' v =>
          rw [hs, ht] at halike
          obtain ⟨rfl, hu, g, rfl⟩ := halike
          exact ⟨rfl, hu, g, rfl⟩

theorem reports_of_reseeded (requests : List Request) {s t : State}
    (hst : (reseeded (· ∈ story.script.nodes)).same s t) :
    story.reports requests s = story.reports requests t := by
  induction requests generalizing s t with
  | nil => rfl
  | cons request rest ih =>
      obtain ⟨hreport, hnext⟩ := report_of_reseeded hdraws hst request
      unfold reports
      rw [hreport, ih hnext]

/-- Where the script draws nothing, stories that differ in their seeds only start alike or fail to
start for the same reason, and tell the host the same, whatever it asks: the answers and the
failures, the tags, the choices, the variables and the visits. -/
theorem playback_of_drawsNothing (a b : UInt64) (requests : List Request) :
    (story.withSeed a).playback requests = (story.withSeed b).playback requests := by
  have hstart : (reseeded (· ∈ story.script.nodes)).same (.ofSeed a) (.ofSeed b) :=
    ⟨State.madeOf_ofSeed a, .ofSeed b, rfl⟩
  have halike := (reseeded_load hdraws).alike _ _ hstart
  rw [playback_withSeed, playback_withSeed]
  cases ha : story.load (.ofSeed a) with
  | ok answer s =>
      cases hb : story.load (.ofSeed b) with
      | ok answer' t =>
          rw [ha, hb] at halike
          obtain ⟨_, hs, g, rfl⟩ := halike
          dsimp only
          rw [reports_of_reseeded hdraws requests ⟨hs, g, rfl⟩]
          rfl
      | error fault t =>
          rw [ha, hb] at halike
          exact halike.elim
  | error fault s =>
      cases hb : story.load (.ofSeed b) with
      | ok answer t =>
          rw [ha, hb] at halike
          exact halike.elim
      | error fault' t =>
          rw [ha, hb] at halike
          obtain ⟨rfl, _⟩ := halike
          rfl

end Requests

/-- A story that starts its randomness anew, shows the groups of a sequence in turn, and counts in
a function that is called from the text of a choice. -/
def fair : Story where
  script :=
    { knots :=
        [{ name := "stall", id := ⟨1⟩, parameters := []
           objects :=
             [.global ⟨"calls", ⟨"0", [.int 0], [0]⟩, false⟩,
               .logic ⟨"SEED_RANDOM(7)", [.function ⟨"SEED_RANDOM", .builtin .seedRandom, 1⟩,
                 .punct .opening, .int 7, .punct .closing], [2, 0]⟩,
               .sequence ⟨2⟩ .cycle [[.text "A fox."], [.text "A hare."]], .lineBreak,
               .choice ⟨3⟩ [⟨[.text "Look ", .interpolation ⟨"call()",
                 [.function ⟨"call", .story, 0⟩, .punct .opening, .punct .closing], [0]⟩],
                 [.divert { kind := .goto, target := some "stall" }], true, [], false, true⟩]]
           stitches := [], gathers := [], isFunction := false },
         { name := "call", id := ⟨4⟩, parameters := []
           objects :=
             [.logic ⟨"calls++", [.ident "calls", .operator .increment .after], [0, 1]⟩,
               .logic ⟨"return calls", [.keyword .ret, .ident "calls"], [1, 0]⟩]
           stitches := [], gathers := [], isFunction := true }]
      sound := rfl }

/-- The fair is played with a choice, a change of its variable, a path that leads nowhere and a
choice that is not there. -/
theorem playback_of_fair :
    fair.script.DrawsNothing ∧
      (((fair.withSeed 1).playback [.continueMaximally 9, .setVariable "calls" (.int 40), .choose 0,
          .continueLine, .choosePath "moon", .choose 1]).toOption.map fun told =>
        told.2.map fun report => (report.answer.toOption, report.view.choices.map (·.1),
          (report.view.visitCount "stall").toOption)) =
        some [(some (.lines (some "A fox.")), ["Look 1"], some 1), (some .done, ["Look 1"], some 1),
          (some .done, [], some 1), (some (.line "A hare."), ["Look 41"], some 2),
          (none, ["Look 41"], some 2), (none, ["Look 41"], some 2)] ∧
      ∀ (a b : UInt64) (requests : List Request),
        (fair.withSeed a).playback requests = (fair.withSeed b).playback requests := by
  have hdraws : fair.script.DrawsNothing := by decide +kernel
  exact ⟨hdraws, by decide +kernel, playback_of_drawsNothing hdraws⟩

end Story

end Skein
