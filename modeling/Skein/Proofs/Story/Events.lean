import Skein.Proofs.Story.Reachability

set_option autoImplicit false

/-!
# Story: events

A state keeps counts and lists: visits, turns, choices made and choices on offer.  What they
stand for is what happened before, and of that a state knows nothing.  A trace tells it: it goes
from one state to another by small changes, some of which are events.
-/

namespace Skein

/-- The identity by which a choice is remembered. -/
def PendingChoice.key (choice : PendingChoice) : Taken := ⟨choice.knot, choice.block, choice.entry⟩

/-! ## Where addresses lead -/

namespace Script

/-- Where control lands at an address: at the body of a knot, or at its first stitch if the body
is empty, at a stitch, or at a gather. -/
inductive Lands (script : Script) : Address → Location → Prop where
  | body {id : KnotId} {k : Knot} : script.knot? id = some k →
      Lands script (.knot id)
        { knot := id, start := 0, stop := k.bodyEnd, visits := [k.id], gatherStart := none }
  | first {id : KnotId} {k : Knot} {stitch : Stitch} {rest : List Stitch} :
      script.knot? id = some k → k.stitches = stitch :: rest → k.bodyEnd = 0 →
      Lands script (.knot id)
        { knot := id, start := stitch.offset, stop := k.segmentEnd stitch.offset
          visits := [k.id, stitch.id], gatherStart := none }
  | stitch {id : KnotId} {k : Knot} {index : Nat} {stitch : Stitch} :
      script.knot? id = some k → k.stitches[index]? = some stitch →
      Lands script (.stitch id index)
        { knot := id, start := stitch.offset, stop := k.segmentEnd stitch.offset
          visits := [stitch.id], gatherStart := none }
  | gather {id : KnotId} {k : Knot} {gather : Gather} :
      script.knot? id = some k → gather ∈ k.allGathers →
      Lands script (.gather id gather.id)
        { knot := id, start := gather.start, stop := k.segmentEnd gather.start
          visits := [gather.id], gatherStart := some gather.start }

theorem lands_of_locate {script : Script} {address : Address} {location : Location}
    (h : script.locate address = .ok location) : script.Lands address location := by
  unfold locate at h
  dsimp only at h
  split at h
  · cases h
  next k hk =>
    cases address with
    | knot id =>
        cases h
        unfold locateKnot
        split
        · next stitch rest hstitches =>
            split
            · next hend => exact .first hk hstitches hend
            · exact .body hk
        · exact .body hk
    | stitch id index =>
        dsimp only at h
        split at h
        · cases h
        · next stitch hstitch =>
            cases h
            exact .stitch hk hstitch
    | gather id gatherId =>
        dsimp only at h
        split at h
        · cases h
        · next gather hgather =>
            cases h
            obtain rfl : gather.id = gatherId := by simpa using List.find?_some hgather
            exact .gather hk (List.mem_of_find?_eq_some hgather)

theorem Lands.knot_eq {script : Script} {address : Address} {location : Location}
    (h : script.Lands address location) : location.knot = address.knotId := by
  cases h <;> rfl

end Script

/-! ## Events -/

/-- What counts and lists are about. -/
inductive Event where
  /-- Control went to a place because it was named. -/
  | entered (address : Address) (location : Location)
  /-- A cursor of the innermost frame came to its next node. -/
  | reached (knot : KnotId) (cursor : Cursor)
  | offered (choice : PendingChoice)
  /-- A choice was made by the player, or as a fallback. -/
  | made (choice : PendingChoice)

/-- A frame is put at a location: the innermost one is moved there, or one is entered there. -/
inductive Placed (frames : Stack Frame) (objects : Content) (location : Location) :
    Stack Frame → Prop where
  | moved : frames.items ≠ [] →
      Placed frames objects location (frames.mapTop (·.relocate objects location))
  | entered (kind : FrameKind) :
      Placed frames objects location (frames.push (.atLocation kind objects location))

namespace Frame

theorem mem_of_nextCursor? {cursors : List Cursor} {cursor : Cursor} {outer : List Cursor}
    (h : nextCursor? cursors = some (cursor, outer)) : cursor ∈ cursors ∧ outer ⊆ cursors := by
  induction cursors with
  | nil => cases h
  | cons first rest ih =>
      rw [nextCursor?] at h
      split at h
      · obtain ⟨hcursor, houter⟩ := ih h
        exact ⟨List.mem_cons_of_mem _ hcursor, List.subset_cons_of_subset _ houter⟩
      · cases h
        exact ⟨List.mem_cons_self, List.subset_cons_self _ _⟩

/-- A frame goes on with one of its cursors past the next node, inside cursors that it had. -/
theorem of_next? {frame next : Frame} {cursor : Cursor} (h : frame.next? = some (cursor, next)) :
    next.knot = frame.knot ∧
      ∃ outer, next.cursors = { cursor with index := cursor.index + 1 } :: outer ∧
        cursor ∈ frame.cursors ∧ outer ⊆ frame.cursors := by
  unfold Frame.next? at h
  obtain ⟨⟨found, outer⟩, hfound, hframe⟩ := Option.map_eq_some_iff.mp h
  obtain ⟨rfl, rfl⟩ := Prod.mk.inj hframe
  exact ⟨rfl, outer, rfl, mem_of_nextCursor? hfound⟩

end Frame

/-- What holds of every frame holds still if it holds of the innermost one after a change. -/
theorem Stack.forall_mapTop {α : Type} {holds : α → Prop} {items : Stack α} {f : α → α}
    (h : ∀ item ∈ items.items, holds item) (hf : ∀ item, items.top? = some item → holds (f item)) :
    ∀ item ∈ (items.mapTop f).items, holds item := by
  show ∀ item ∈ items.items.modifyHead f, holds item
  unfold Stack.top? at hf
  cases hitems : items.items with
  | nil => nofun
  | cons top below =>
      rw [hitems] at h hf
      intro item hitem
      rcases List.mem_cons.mp hitem with rfl | hitem
      · exact hf top rfl
      · exact h item (List.mem_cons_of_mem _ hitem)

theorem Placed.forall {holds : Frame → Prop} {frames placed : Stack Frame} {objects : Content}
    {location : Location} (hplaced : Placed frames objects location placed)
    (h : ∀ frame ∈ frames.items, holds frame)
    (hnew : ∀ kind, holds (.atLocation kind objects location)) :
    ∀ frame ∈ placed.items, holds frame := by
  cases hplaced with
  | moved _ => exact Stack.forall_mapTop h fun frame _ => hnew frame.kind
  | entered kind =>
      intro frame hframe
      rcases List.mem_cons.mp hframe with rfl | hframe
      · exact hnew kind
      · exact h frame hframe

namespace State

/-- The innermost frame is in a knot, and in content that holds a node. -/
def At (s : State) (knot : KnotId) (node : Node) : Prop :=
  ∃ frame, s.frames.top? = some frame ∧ frame.knot = knot ∧
    ∃ cursor ∈ frame.cursors, node ∈ cursor.content

/-- A choice is one of a block that the innermost frame is at, and it is open. -/
structure Opens (s : State) (choice : PendingChoice) (entries : List Entry) (entry : Entry) :
    Prop where
  block : s.At choice.knot (.choice choice.block entries)
  listed : entries[choice.entry]? = some entry
  result : choice.result = entry.result
  fallback : choice.fallback = entry.fallback
  free : entry.sticky = false → choice.key ∉ s.taken
  resume : ∃ scopes, choice.resume = resumePoint s.frames.items scopes

/-- Only the innermost frame moves, within itself. -/
structure Stays (s t : State) : Prop extends SameTurn s t where
  kinds : t.kinds = s.kinds
  below : t.frames.items.tail = s.frames.items.tail

/-- The innermost frame moves within itself, or it is gone. -/
inductive Inside (s t : State) : Prop where
  | on (h : s.Stays t)
  | out (hturn : s.SameTurn t) (hframes : t.frames.items = s.frames.items.tail)

theorem Stays.of_frames {s t : State} (hturn : s.SameTurn t) (hframes : t.frames = s.frames) :
    s.Stays t :=
  ⟨hturn, by rw [State.kinds, State.kinds, hframes], by rw [hframes]⟩

theorem SameBelow.stays {s t : State} (h : s.SameBelow t) : s.Stays t :=
  ⟨h.toSameTurn, h.kinds, h.below⟩

theorem Stays.inside {s t u : State} (hst : s.Stays t) (htu : t.Inside u) : s.Inside u := by
  cases htu with
  | on htu =>
      exact .on ⟨hst.toSameTurn.trans htu.toSameTurn, htu.kinds.trans hst.kinds,
        htu.below.trans hst.below⟩
  | out hturn hframes =>
      exact .out (hst.toSameTurn.trans hturn) (hframes.trans hst.below)

theorem Stays.inFunction_eq {s t : State} (h : s.Stays t) : t.inFunction = s.inFunction := by
  have hkinds := congrArg List.head? h.kinds
  rw [State.kinds, State.kinds, List.head?_map, List.head?_map] at hkinds
  rw [inFunction, inFunction, topKind?, topKind?, Stack.top?, Stack.top?, hkinds]

end State

namespace Story

variable (story : Story)

/-- One small change of a state, with the event that it is, if it is one. -/
inductive Happens : State → List Event → State → Prop where
  /-- Variables, output, sequences, randomness and host functions change. -/
  | quiet {s t : State} : Still s t → Happens s [] t
  | posed {s : State} (status : Status) : Happens s [] { s with status := status }
  | reached {s : State} {frame next : Frame} {cursor : Cursor} :
      s.frames.top? = some frame → frame.next? = some (cursor, next) →
      Happens s [.reached next.knot cursor] (story.past s cursor next)
  /-- The innermost frame goes on with content inside a node. -/
  | nested {s : State} {knot : KnotId} {node : Node} {content : Content} :
      s.At knot node → content ∈ node.runs → Happens s [] (s.pushContent content)
  | entered {s t : State} {address : Address} {location : Location} {knot : Knot} :
      story.script.locate address = .ok location →
      story.script.knot? location.knot = some knot →
      Placed s.frames knot.objects location t.frames → s.SameTurn t →
      t.visits = (s.visitAll location.visits).visits → Happens s [.entered address location] t
  /-- A knot was named, but its parameters could not be bound. -/
  | refused {s t : State} {id : KnotId} {location : Location} {knot : Knot} :
      story.script.locate (.knot id) = .ok location →
      story.script.knot? location.knot = some knot →
      Placed s.frames knot.objects location t.frames → s.SameTurn t → t.visits = s.visits →
      Happens s [] t
  | left {s : State} : Happens s [] s.dropFrame
  | offered {s : State} {choice : PendingChoice} {entries : List Entry} {entry : Entry} :
      s.Opens choice entries entry →
      Happens s [.offered choice] { s with choices := s.choices ++ [choice] }
  | halted {s : State} : Happens s [] { s with frames := ∅ }
  | withdrawn {s : State} : Happens s [] { s with choices := [] }
  | made {s : State} {choice : PendingChoice} :
      choice ∈ s.choices → Happens s [.made choice] (s.fallBack choice)

/-- Small changes from one state to another, and their events, latest first. -/
inductive Trace (s : State) : List Event → State → Prop where
  | refl : Trace s [] s
  | next {log events : List Event} {t u : State} :
      Trace s log t → story.Happens t events u → Trace s (events ++ log) u

/-- Small changes lead from one state to another. -/
def Traced (s t : State) : Prop := ∃ log, story.Trace s log t

variable {story}

theorem Trace.trans {s t u : State} {log new : List Event} (hst : story.Trace s log t)
    (htu : story.Trace t new u) : story.Trace s (new ++ log) u := by
  induction htu with
  | refl => exact hst
  | next _ hhappens ih =>
      rw [List.append_assoc]
      exact ih.next hhappens

namespace Traced

theorem refl (s : State) : story.Traced s s := ⟨[], .refl⟩

theorem trans {s t u : State} (hst : story.Traced s t) (htu : story.Traced t u) :
    story.Traced s u := by
  obtain ⟨log, hst⟩ := hst
  obtain ⟨new, htu⟩ := htu
  exact ⟨_, hst.trans htu⟩

theorem next {s t u : State} {events : List Event} (hst : story.Traced s t)
    (h : story.Happens t events u) : story.Traced s u := by
  obtain ⟨log, hst⟩ := hst
  exact ⟨_, hst.next h⟩

end Traced

theorem Happens.traced {s t : State} {events : List Event} (h : story.Happens s events t) :
    story.Traced s t := (Traced.refl s).next h

theorem traced_of_still {s t : State} (h : Still s t) : story.Traced s t := (Happens.quiet h).traced

/-! ## Coming to rest and going on from choices -/

theorem trace_clearFlow (s : State) : story.Trace s [] s.clearFlow := by
  have hquiet : story.Happens { s with frames := ∅ } [] s.clearFlow :=
    .quiet ⟨⟨rfl, rfl, rfl, rfl⟩, rfl, rfl⟩
  exact (Trace.refl.next .halted).next hquiet

theorem traced_finish (s : State) : story.Traced s s.finish :=
  ⟨_, ((trace_clearFlow s).next .withdrawn).next (.posed .ended)⟩

/-- A flow that comes to rest may make a fallback on its own. -/
theorem traced_rest (s : State) : story.Traced s s.rest := by
  have hclear : story.Traced s s.clearFlow := ⟨[], trace_clearFlow s⟩
  simp only [State.rest]
  split
  · split
    · next choice hhead => exact hclear.next (.made (List.mem_of_head? hhead))
    · exact hclear.next (.posed .ended)
  · exact hclear.next (.posed .atChoice)

theorem traced_endFlow (s : State) : story.Traced s s.endFlow := by
  unfold State.endFlow
  split
  · exact Happens.left.traced
  · exact traced_rest s

/-- A choice that is shown is made like a fallback, and its text is printed as well. -/
theorem still_fallBack_choose (s : State) (choice : PendingChoice) :
    Still (s.fallBack choice) (s.choose choice) := by
  unfold State.choose State.echo State.fallBack
  split
  · exact ⟨⟨rfl, rfl, rfl, rfl⟩, rfl, rfl⟩
  · exact ⟨⟨rfl, rfl, rfl, rfl⟩, rfl, rfl⟩

end Story

end Skein
