import Skein.Proofs.Story.Chronicle

set_option autoImplicit false

/-!
# Story: choices that can be made only once

A choice that is not sticky is gone once it has been made.  It may have been on offer several
times, through threads, and it may come back with the frames of another choice; what is
remembered of it is its knot, its block and its place there.  If blocks have identities of
their own within each knot, that is enough.

The frames of a story only ever stand in the content of the knot that they name.  So the block
that a frame offers is the one with its identity in that knot, and whether a choice on offer is
sticky can be looked up there.
-/

namespace Skein

open Outcome

/-! ## Blocks of choices -/

/-- The block of choices that a node is. -/
def Node.block? : Node → Option (NodeId × List Entry)
  | .choice id entries => some (id, entries)
  | _ => none

/-- The blocks of choices of a knot, wherever they stand in it. -/
def Knot.blocks (k : Knot) : List (NodeId × List Entry) :=
  (Content.nodes k.objects).filterMap Node.block?

namespace Script

/-- Within each knot no two blocks of choices have the same identity. -/
def HasUniqueBlocks (script : Script) : Prop :=
  ∀ knot ∈ script.knots, (knot.blocks.map (·.1)).Nodup

instance (script : Script) : Decidable script.HasUniqueBlocks :=
  inferInstanceAs (Decidable (∀ knot ∈ script.knots, (knot.blocks.map (·.1)).Nodup))

/-- The choice that an identity stands for. -/
def entry? (script : Script) (key : Taken) : Option Entry :=
  (script.knot? key.knot).bind fun knot =>
    (Table.find? key.block knot.blocks).bind fun entries => entries[key.entry]?

end Script

theorem Table.find?_of_mem {κ α : Type} [DecidableEq κ] {key : κ} {value : α}
    {entries : List (κ × α)} (hnodup : (entries.map (·.1)).Nodup) (hmem : (key, value) ∈ entries) :
    Table.find? key entries = some value := by
  induction entries with
  | nil => cases hmem
  | cons entry rest ih =>
      obtain ⟨k, a⟩ := entry
      rw [List.map_cons, List.nodup_cons] at hnodup
      rcases List.mem_cons.mp hmem with heq | hmem
      · obtain ⟨rfl, rfl⟩ := Prod.mk.inj heq
        simp [Table.find?]
      · have hne : k ≠ key := by
          rintro rfl
          exact hnodup.1 (List.mem_map.mpr ⟨(k, value), hmem, rfl⟩)
        rw [Table.find?, if_neg hne]
        exact ih hnodup.2 hmem

/-- Where blocks have identities of their own, the one that stands in a knot is the one that
its identity stands for. -/
theorem Script.entry?_of_mem {script : Script} (hunique : script.HasUniqueBlocks) {key : Taken}
    {knot : Knot} (hknot : script.knot? key.knot = some knot) {entries : List Entry}
    (hblock : .choice key.block entries ∈ Content.nodes knot.objects) :
    script.entry? key = entries[key.entry]? := by
  have hmem : (key.block, entries) ∈ knot.blocks :=
    List.mem_filterMap.mpr ⟨_, hblock, rfl⟩
  have hfind := Table.find?_of_mem (hunique knot (List.mem_of_getElem? hknot)) hmem
  rw [Script.entry?, hknot, Option.bind_some, hfind, Option.bind_some]

/-! ## Frames stand in their knots -/

/-- A frame stands in the content of the knot that it names. -/
def Frame.Rooted (script : Script) (frame : Frame) : Prop :=
  ∃ knot, script.knot? frame.knot = some knot ∧
    ∀ cursor ∈ frame.cursors, cursor.content ⊆ Content.nodes knot.objects

namespace Frame

variable {script : Script} {frame : Frame}

theorem Rooted.samePlace {other : Frame} (h : other.Rooted script)
    (hplace : frame.SamePlace other) : frame.Rooted script := by
  unfold Rooted
  rw [hplace.knot, hplace.cursors]
  exact h

theorem rooted_atLocation {knot : Knot} {location : Location}
    (hknot : script.knot? location.knot = some knot) (kind : FrameKind) :
    (atLocation kind knot.objects location).Rooted script := by
  refine ⟨knot, hknot, fun cursor hcursor => ?_⟩
  obtain rfl := List.mem_singleton.mp hcursor
  exact Content.subset_nodes knot.objects

theorem Rooted.pushContent (h : frame.Rooted script) {content : Content}
    (hcontent : ∀ knot, script.knot? frame.knot = some knot →
      content ⊆ Content.nodes knot.objects) :
    (frame.pushContent content).Rooted script := by
  unfold Frame.pushContent
  split
  · exact h
  · obtain ⟨knot, hknot, hcursors⟩ := h
    refine ⟨knot, hknot, fun cursor hcursor => ?_⟩
    rcases List.mem_cons.mp hcursor with rfl | hcursor
    · exact hcontent knot hknot
    · exact hcursors cursor hcursor

theorem Rooted.next? (h : frame.Rooted script) {cursor : Cursor} {next : Frame}
    (hnext : frame.next? = some (cursor, next)) : next.Rooted script := by
  obtain ⟨hknot, outer, hcursors, hmem, houter⟩ := Frame.of_next? hnext
  obtain ⟨knot, hfound, hrooted⟩ := h
  refine ⟨knot, hknot ▸ hfound, fun other hother => ?_⟩
  rw [hcursors] at hother
  rcases List.mem_cons.mp hother with rfl | hother
  · exact hrooted cursor hmem
  · exact hrooted other (houter hother)

end Frame

/-! ## Choices made and choices on offer -/

/-- Whether a choice is made. -/
def Event.isMade : Event → Bool
  | .made _ => true
  | _ => false

/-- A choice that is made completes a turn and is remembered. -/
theorem State.record_fallBack (s : State) (choice : PendingChoice) :
    (s.fallBack choice).turn = s.turn + 1 ∧
      ∀ key, key ∈ (s.fallBack choice).taken ↔ key = choice.key ∨ key ∈ s.taken := by
  have hturn : (s.fallBack choice).turn =
      (s.markTaken choice.knot choice.block choice.entry).turn + 1 := rfl
  have htaken : (s.fallBack choice).taken =
      (s.markTaken choice.knot choice.block choice.entry).taken := rfl
  rw [hturn, htaken]
  unfold State.markTaken
  split
  · next hold =>
      have hmem : choice.key ∈ s.taken := of_decide_eq_true hold
      refine ⟨rfl, fun key => ⟨.inr, ?_⟩⟩
      rintro (rfl | hkey)
      · exact hmem
      · exact hkey
  · exact ⟨rfl, fun key => List.mem_cons⟩

namespace Story

variable (story : Story)

/-- A choice on offer is one of its knot, it was not made before unless it is sticky, and it
goes on in its knot. -/
structure Pending (taken : List Taken) (choice : PendingChoice) : Prop where
  entry : ∃ entry, story.script.entry? choice.key = some entry ∧
    (entry.sticky = false → choice.key ∉ taken)
  frames : ∀ frame ∈ (choice.resume.map (·.1)).modifyHead (·.pushContent choice.result),
    frame.Rooted story.script

/-- Frames stand in their knots, and what is known of choices is what happened to them. -/
structure Orderly (log : List Event) (s : State) : Prop where
  frames : ∀ frame ∈ s.frames.items, frame.Rooted story.script
  choices : ∀ choice ∈ s.choices, story.Pending s.taken choice
  turn : (log.filter Event.isMade).length = s.turn
  taken : ∀ key, key ∈ s.taken ↔ ∃ choice, .made choice ∈ log ∧ choice.key = key

variable {story}

/-- As long as no choice is made, only frames and choices on offer have to be looked at. -/
theorem Orderly.keep {log events : List Event} {s t : State} (h : story.Orderly log s)
    (hevents : ∀ event ∈ events, event.isMade = false) (hturn : t.turn = s.turn)
    (htaken : t.taken = s.taken) (hframes : ∀ frame ∈ t.frames.items, frame.Rooted story.script)
    (hchoices : ∀ choice ∈ t.choices, story.Pending s.taken choice) :
    story.Orderly (events ++ log) t := by
  refine ⟨hframes, by rw [htaken]; exact hchoices, ?_, fun key => ?_⟩
  · have hnone : events.filter Event.isMade = [] := by simpa using hevents
    rw [List.filter_append, hnone, hturn]
    exact h.turn
  · rw [htaken, h.taken key]
    refine exists_congr fun choice => and_congr_left fun _ => ?_
    rw [List.mem_append, or_iff_right]
    intro hmem
    cases hevents _ hmem

/-- The same for what leaves the choices on offer alone. -/
theorem Orderly.sameTurn {log events : List Event} {s t : State} (h : story.Orderly log s)
    (hevents : ∀ event ∈ events, event.isMade = false) (hturn : s.SameTurn t)
    (hframes : ∀ frame ∈ t.frames.items, frame.Rooted story.script) :
    story.Orderly (events ++ log) t :=
  h.keep hevents hturn.turn hturn.taken hframes (by rw [hturn.choices]; exact h.choices)

/-- The block that the innermost frame is at is one of the knot that it stands in. -/
theorem mem_nodes_of_at {s : State} {id : KnotId} {node : Node}
    (hframes : ∀ frame ∈ s.frames.items, frame.Rooted story.script) (hat : s.At id node) :
    ∃ knot, story.script.knot? id = some knot ∧ node ∈ Content.nodes knot.objects := by
  obtain ⟨frame, htop, rfl, cursor, hcursor, hnode⟩ := hat
  obtain ⟨knot, hknot, hcursors⟩ := hframes frame (List.mem_of_head? htop)
  exact ⟨knot, hknot, hcursors cursor hcursor hnode⟩

/-- A choice that is offered goes on with frames that stand in their knots, the first of them
with the content of the choice. -/
theorem pending_of_opens (hunique : story.script.HasUniqueBlocks) {s : State}
    (hframes : ∀ frame ∈ s.frames.items, frame.Rooted story.script) {choice : PendingChoice}
    {entries : List Entry} {entry : Entry} (hopens : s.Opens choice entries entry) :
    story.Pending s.taken choice := by
  obtain ⟨knot, hknot, hblock⟩ := mem_nodes_of_at hframes hopens.block
  refine ⟨⟨entry, ?_, hopens.free⟩, ?_⟩
  · have hknot' : story.script.knot? choice.key.knot = some knot := hknot
    rw [Script.entry?_of_mem hunique hknot' hblock]
    exact hopens.listed
  · obtain ⟨scopes, hresume⟩ := hopens.resume
    obtain ⟨top, htop, htopKnot, _⟩ := hopens.block
    obtain ⟨below, hitems⟩ := List.head?_eq_some_iff.mp htop
    obtain ⟨first, scope, rest, hcons, hplace⟩ := resumePoint_cons top below scopes
    rw [hresume, hitems, hcons]
    intro frame hframe
    rcases List.mem_cons.mp hframe with rfl | hframe
    · refine Frame.Rooted.pushContent ?_ fun other hother => ?_
      · exact (hframes top (List.mem_of_head? htop)).samePlace hplace
      · have hsame : other = knot := by
          rw [hplace.knot, htopKnot, hknot] at hother
          exact (Option.some.inj hother).symm
        subst hsame
        refine Content.part_subset_nodes hblock (List.mem_flatMap.mpr ⟨entry, ?_, ?_⟩)
        · exact List.mem_of_getElem? hopens.listed
        · rw [hopens.result]
          exact List.mem_cons_of_mem _ List.mem_cons_self
    · obtain ⟨⟨resumed, scope'⟩, hmem, rfl⟩ := List.mem_map.mp hframe
      have hpoint : (resumed, scope') ∈ resumePoint (top :: below) scopes := by
        rw [hcons]
        exact List.mem_cons_of_mem _ hmem
      obtain ⟨other, hother, hplace'⟩ := samePlace_of_mem_resumePoint hpoint
      exact (hframes other (hitems ▸ hother)).samePlace hplace'

/-- What is known of choices stays what happened to them, whatever happens. -/
theorem Orderly.happens (hunique : story.script.HasUniqueBlocks) {log events : List Event}
    {s t : State} (h : story.Orderly log s) (hhappens : story.Happens s events t) :
    story.Orderly (events ++ log) t := by
  cases hhappens with
  | quiet hstill =>
      refine h.sameTurn nofun hstill.toSameTurn ?_
      rw [hstill.frames]
      exact h.frames
  | posed status => exact h.keep nofun rfl rfl h.frames h.choices
  | @reached frame next cursor htop hnext =>
      refine h.sameTurn (by simp [Event.isMade]) (sameBelow_past htop hnext).toSameTurn ?_
      rw [frames_past]
      refine Stack.forall_mapTop h.frames fun top htop' => ?_
      exact (h.frames frame (List.mem_of_head? htop)).next? hnext
  | @nested id node content hat hcontent =>
      refine h.sameTurn nofun ⟨rfl, rfl, rfl, rfl⟩ (Stack.forall_mapTop h.frames fun top htop => ?_)
      refine (h.frames top (List.mem_of_head? htop)).pushContent fun knot hknot => ?_
      obtain ⟨knot', hknot', hnode⟩ := mem_nodes_of_at h.frames hat
      obtain ⟨frame, htop', rfl, _⟩ := hat
      obtain rfl : frame = top := Option.some.inj (htop'.symm.trans htop)
      obtain rfl : knot' = knot := Option.some.inj (hknot'.symm.trans hknot)
      exact Content.part_subset_nodes hnode (node.runs_subset_parts hcontent)
  | entered _ hknot hplaced hturn _ =>
      exact h.sameTurn (by simp [Event.isMade]) hturn
        (hplaced.forall h.frames (Frame.rooted_atLocation hknot))
  | refused _ hknot hplaced hturn _ =>
      exact h.sameTurn nofun hturn
        (hplaced.forall h.frames (Frame.rooted_atLocation hknot))
  | left =>
      refine h.sameTurn nofun ⟨rfl, rfl, rfl, rfl⟩ fun frame hframe => ?_
      exact h.frames frame (List.mem_of_mem_tail hframe)
  | offered hopens =>
      refine h.keep (by simp [Event.isMade]) rfl rfl h.frames fun choice hchoice => ?_
      rcases List.mem_append.mp hchoice with hold | hnew
      · exact h.choices choice hold
      · obtain rfl := List.mem_singleton.mp hnew
        exact pending_of_opens hunique h.frames hopens
  | halted => exact h.sameTurn nofun ⟨rfl, rfl, rfl, rfl⟩ nofun
  | withdrawn => exact h.keep nofun rfl rfl h.frames nofun
  | @made choice hmem =>
      obtain ⟨hturn, htaken⟩ := s.record_fallBack choice
      refine ⟨(h.choices choice hmem).frames, nofun, ?_, fun key => ?_⟩
      · rw [hturn, ← h.turn]
        rfl
      · rw [htaken, h.taken key]
        constructor
        · rintro (rfl | ⟨earlier, hearlier, hkey⟩)
          · exact ⟨choice, List.mem_cons_self, rfl⟩
          · exact ⟨earlier, List.mem_cons_of_mem _ hearlier, hkey⟩
        · rintro ⟨earlier, hearlier, rfl⟩
          rcases List.mem_cons.mp hearlier with hsame | hearlier
          · cases hsame
            exact .inl rfl
          · exact .inr ⟨earlier, hearlier, rfl⟩

theorem Orderly.trace (hunique : story.script.HasUniqueBlocks) {log new : List Event} {s t : State}
    (h : story.Orderly log s) (htrace : story.Trace s new t) : story.Orderly (new ++ log) t := by
  induction htrace with
  | refl => exact h
  | next _ hhappens ih =>
      rw [List.append_assoc]
      exact ih.happens hunique hhappens

theorem orderly_ofSeed (story : Story) (seed : UInt64) : story.Orderly [] (.ofSeed seed) :=
  ⟨nofun, nofun, rfl, fun _ => ⟨nofun, nofun⟩⟩

theorem History.orderly (hunique : story.script.HasUniqueBlocks) {log : List Event} {s : State}
    (h : story.History log s) : story.Orderly log s := by
  have htrace := (orderly_ofSeed story story.config.seed).trace hunique h.trace
  rwa [List.append_nil] at htrace

/-! ## Once and never again -/

/-- A player who makes a choice makes one of those shown, and that is all that happens. -/
theorem trace_chooseIndex {s t : State} {index : Nat} (hrun : chooseIndex index s = .ok () t) :
    ∃ choice, s.visibleChoices[index]? = some choice ∧ story.Trace s [.made choice] t := by
  obtain ⟨_, _, hget, hchoose⟩ := of_run_eq_ok hrun
  cases hget
  dsimp only at hchoose
  cases hchoice : s.visibleChoices[index]? with
  | none =>
      rw [hchoice] at hchoose
      cases hchoose
  | some choice =>
      rw [hchoice] at hchoose
      dsimp only at hchoose
      split at hchoose
      · cases hchoose
        have hmem : choice ∈ s.choices :=
          (List.mem_filter.mp (List.mem_of_getElem? hchoice)).1
        exact ⟨choice, rfl,
          (Trace.refl.next (.made hmem)).next (.quiet (still_fallBack_choose s choice))⟩
      · cases hchoose

theorem History.choose {log : List Event} {s t : State} {index : Nat} (h : story.History log s)
    (hrun : chooseIndex index s = .ok () t) :
    ∃ choice, s.visibleChoices[index]? = some choice ∧ story.History (.made choice :: log) t := by
  obtain ⟨choice, hchoice, htrace⟩ := trace_chooseIndex hrun
  have hleaves : (story.perform (.choose index)).Leaves s t := .inl ⟨(), hrun⟩
  exact ⟨choice, hchoice, h.request (.choose index) hleaves htrace⟩

/-- Flow that comes to rest where no choice is shown makes the first fallback, and that is all
that happens. -/
theorem trace_rest {s : State} {choice : PendingChoice} (hshown : s.visibleChoices = [])
    (hfirst : s.choices.head? = some choice) : story.Trace s [.made choice] s.rest := by
  have hrest : s.rest = s.clearFlow.fallBack choice := by
    have hclear : s.clearFlow.visibleChoices = [] := hshown
    have hhead : s.clearFlow.choices.head? = some choice := hfirst
    simp only [State.rest, hclear, hhead, List.isEmpty_nil, if_true]
  rw [hrest]
  exact (trace_clearFlow s).next (.made (List.mem_of_head? hfirst))

/-- In every state that a story with blocks of their own identities can come to, as many choices
were made as turns are completed, and those marked as made are those that were.  A choice on
offer that is not sticky is none of them: once it has been made, by the player or as a fallback,
it is never on offer again.  When the player makes a choice it is one of those shown, and when
flow comes to rest with none to show it is the first fallback. -/
theorem once_only_of_reachable {s : State} (hunique : story.script.HasUniqueBlocks)
    (h : story.Reachable s) :
    (∃ log, story.History log s) ∧
      ∀ log, story.History log s →
        (log.filter Event.isMade).length = s.turn ∧
        (∀ key, key ∈ s.taken ↔ ∃ choice, .made choice ∈ log ∧ choice.key = key) ∧
        (∀ choice ∈ s.choices, ∃ entry, story.script.entry? choice.key = some entry ∧
          (entry.sticky = false →
            choice.key ∉ s.taken ∧ ∀ earlier, .made earlier ∈ log → earlier.key ≠ choice.key)) ∧
        (∀ index t, chooseIndex index s = .ok () t →
          ∃ choice, s.visibleChoices[index]? = some choice ∧
            story.History (.made choice :: log) t) ∧
        ∀ choice, s.visibleChoices = [] → s.choices.head? = some choice →
          story.Trace s [.made choice] s.rest := by
  refine ⟨h.history, fun log hlog => ?_⟩
  have horderly := hlog.orderly hunique
  refine ⟨horderly.turn, horderly.taken, fun choice hchoice => ?_, fun _ _ => hlog.choose,
    fun _ => trace_rest⟩
  obtain ⟨entry, hentry, hfree⟩ := (horderly.choices choice hchoice).entry
  refine ⟨entry, hentry, fun hsticky => ⟨hfree hsticky, fun earlier hearlier hkey => ?_⟩⟩
  exact hfree hsticky ((horderly.taken _).mpr ⟨earlier, hearlier, hkey⟩)

/-- A story that comes back to a block of two choices that can be made once and a sticky one. -/
def parley : Story where
  script :=
    { knots :=
        [{ name := "start", id := ⟨1⟩, parameters := []
           objects :=
             [.choice ⟨2⟩
               [⟨[.text "Ask"], [.divert { kind := .goto, target := some "start" }], false, [],
                  false, false⟩,
                ⟨[.text "Leave"], [], false, [], false, false⟩,
                ⟨[.text "Wait"], [.divert { kind := .goto, target := some "start" }], true, [],
                  false, false⟩]]
           stitches := [], gathers := [], isFunction := false }]
      sound := rfl }

/-- After the first choice the second is on offer, and no choice made before is the same. -/
theorem once_only_of_parley :
    ∃ s log choice, parley.Reachable s ∧ parley.History log s ∧ s.turn = 1 ∧
      choice ∈ s.choices ∧ choice.key = ⟨⟨0⟩, ⟨2⟩, 1⟩ ∧
      (∃ earlier, .made earlier ∈ log ∧ earlier.key = ⟨⟨0⟩, ⟨2⟩, 0⟩) ∧
      ∀ earlier, .made earlier ∈ log → earlier.key ≠ choice.key := by
  have hrun : (parley.start.toOption.map fun start =>
      let s := (parley.perform .continueLine).after
        ((parley.perform (.choose 0)).after ((parley.perform .continueLine).after start))
      (s.turn, s.taken, s.choices.map fun choice =>
        (choice.key, (parley.script.entry? choice.key).map (·.sticky)))) =
        some (1, [⟨⟨0⟩, ⟨2⟩, 0⟩], [(⟨⟨0⟩, ⟨2⟩, 1⟩, some false), (⟨⟨0⟩, ⟨2⟩, 2⟩, some true)]) := by
    decide +kernel
  obtain ⟨start, hstart, hrun⟩ := exists_start hrun
  obtain ⟨hturn, hrest⟩ := Prod.mk.inj hrun
  obtain ⟨htaken, hchoices⟩ := Prod.mk.inj hrest
  have hoffered := (Reachable.start hstart).request .continueLine (Flow.leaves_after _ _)
  have hchosen := hoffered.request (.choose 0) (Flow.leaves_after _ _)
  have hreach := hchosen.request .continueLine (Flow.leaves_after _ _)
  obtain ⟨⟨log, hlog⟩, hall⟩ := once_only_of_reachable (by decide +kernel) hreach
  obtain ⟨_, hmade, honce, _⟩ := hall log hlog
  obtain ⟨choice, others, hcons, hpair, _⟩ := List.map_eq_cons_iff.mp hchoices
  obtain ⟨hkey, hsticky⟩ := Prod.mk.inj hpair
  have hmem := hcons ▸ List.mem_cons_self (a := choice) (l := others)
  obtain ⟨entry, hentry, hfree⟩ := honce choice hmem
  rw [hentry] at hsticky
  refine ⟨_, log, choice, hreach, hlog, hturn, hmem, hkey, (hmade _).mp ?_,
    (hfree (Option.some.inj hsticky)).2⟩
  rw [htaken]
  exact List.mem_cons_self

end Story

end Skein
