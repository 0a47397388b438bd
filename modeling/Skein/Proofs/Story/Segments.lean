import Skein.Proofs.Story.Chronicle
import Skein.Proofs.Story.Parts

set_option autoImplicit false

/-!
# Story: which objects an address leads to

An address names a part of a knot, or a gather in one.  Control that is sent there starts at the
right place, and it goes on to the end of the part that holds the object at that place.  That is the
part which was named, unless nothing is left of it: then control goes on with the next part that has
an object.  Control that comes to a place by walking never does so, since a cursor stops at the end
of the part that it walks through.
-/

namespace Skein

namespace Script

variable {script : Script}

/-! ## Where an address leads -/

/-- An address names a place in a part of a knot, where part `0` is the body and part `n + 1` is
stitch `n`: the start of the body, or of the first stitch if there is nothing before it, the start
of a stitch, or the place behind the choices that a gather follows. -/
inductive Names (script : Script) : Address → Knot → Nat → Nat → Prop where
  | body {id : KnotId} {k : Knot} (hk : script.knot? id = some k)
      (hbody : k.bodyEnd ≠ 0 ∨ k.stitches = []) : Names script (.knot id) k 0 0
  | first {id : KnotId} {k : Knot} (hk : script.knot? id = some k) (hbody : k.bodyEnd = 0)
      (hstitches : k.stitches ≠ []) : Names script (.knot id) k 1 (k.edge 1)
  | stitch {id : KnotId} {k : Knot} {index : Nat} (hk : script.knot? id = some k)
      (hindex : index < k.stitches.length) :
      Names script (.stitch id index) k (index + 1) (k.edge (index + 1))
  | gather {id : KnotId} {k : Knot} {gatherId : NodeId} {gather : Gather} {part : Nat}
      (hk : script.knot? id = some k)
      (hgather : (k.allGathers.find? fun gather => gather.id = gatherId) = some gather)
      (hpart : k.Holds part gather.choiceIndex) :
      Names script (.gather id gatherId) k part gather.start

theorem locateKnot_of_body {id : KnotId} {k : Knot} (h : k.bodyEnd ≠ 0 ∨ k.stitches = []) :
    locateKnot id k =
      { knot := id, start := 0, stop := k.bodyEnd, visits := [k.id], gatherStart := none } := by
  unfold locateKnot
  split
  next hstitches =>
    rcases h with hbody | hnone
    · rw [if_neg hbody]
    · rw [hstitches] at hnone
      cases hnone
  next => rfl

namespace Names

variable {address : Address} {k : Knot} {part place : Nat}

theorem knot?_eq (h : script.Names address k part place) :
    script.knot? address.knotId = some k := by
  cases h <;> assumption

/-- The place is in the part, or at its end. -/
theorem bounds (h : script.Names address k part place) :
    part ≤ k.stitches.length ∧ k.edge part ≤ place ∧ place ≤ k.edge (part + 1) := by
  have hmono := (Script.ordered h.knot?_eq).monotone_edge
  cases h with
  | body _ _ => exact ⟨Nat.zero_le _, Nat.le_refl _, Nat.zero_le _⟩
  | first _ _ hstitches =>
      exact ⟨List.length_pos_iff.mpr hstitches, Nat.le_refl _, hmono (Nat.le_succ 1)⟩
  | @stitch _ _ index _ hindex => exact ⟨hindex, Nat.le_refl _, hmono (Nat.le_succ (index + 1))⟩
  | gather _ _ hpart => exact ⟨hpart.isPart, Nat.le_succ_of_le hpart.start_le, hpart.lt_stop⟩

/-- Control starts at the place that is named, and goes to where a part ends behind it. -/
theorem locate_eq (h : script.Names address k part place) :
    ∃ location, script.locate address = .ok location ∧ location.knot = address.knotId ∧
      location.start = place ∧ location.stop = k.segmentEnd place := by
  have hordered := Script.ordered h.knot?_eq
  have hknot := h.knot?_eq
  cases h with
  | body hk hbody =>
      unfold locate
      dsimp only
      rw [hknot]
      dsimp only
      rw [locateKnot_of_body hbody]
      exact ⟨_, rfl, rfl, rfl, hordered.bodyEnd_eq_segmentEnd hbody⟩
  | first hk hbody hstitches =>
      obtain ⟨stitch, rest, hcons⟩ := List.exists_cons_of_ne_nil hstitches
      have hfirst : k.stitches[0]? = some stitch := by rw [hcons, List.getElem?_cons_zero]
      unfold locate
      dsimp only
      rw [hknot]
      dsimp only
      unfold locateKnot
      rw [hcons]
      dsimp only
      rw [if_pos hbody, ← Knot.edge_of_stitch hfirst]
      exact ⟨_, rfl, rfl, rfl, rfl⟩
  | @stitch id _ index hk hindex =>
      have hstitch := List.getElem?_eq_getElem hindex
      unfold locate
      dsimp only
      rw [hknot]
      dsimp only
      rw [hstitch, Knot.edge_of_stitch hstitch]
      exact ⟨_, rfl, rfl, rfl, rfl⟩
  | gather hk hgather _ =>
      unfold locate
      dsimp only
      rw [hknot]
      dsimp only
      rw [hgather]
      exact ⟨_, rfl, rfl, rfl, rfl⟩

/-- Control goes on to the end of the part that was named, exactly if something is left of it or
nothing is left of the knot. -/
theorem segmentEnd_eq_iff (h : script.Names address k part place) :
    k.segmentEnd place = k.edge (part + 1) ↔
      place < k.edge (part + 1) ∨ place = k.objects.length := by
  have hordered := Script.ordered h.knot?_eq
  obtain ⟨hpart, hstart, hstop⟩ := h.bounds
  have hwithin := hordered.edge_le (part + 1)
  constructor
  · intro hend
    by_contra hleft
    obtain ⟨hnone, hrest⟩ := not_or.mp hleft
    have hobject : place < k.objects.length := by omega
    obtain ⟨other, hother⟩ := Knot.exists_holds hobject
    have hlater := hother.lt_stop
    rw [hordered.segmentEnd_eq hother] at hend
    omega
  · rintro (hsome | hlast)
    · exact hordered.segmentEnd_eq ⟨hpart, hstart, hsome⟩
    · rw [hordered.segmentEnd_of_le (Nat.le_of_eq hlast.symm)]
      omega

end Names

/-- Control is sent only to places that are named. -/
theorem names_of_locate {address : Address} {location : Location}
    (h : script.locate address = .ok location) :
    ∃ k part place, script.Names address k part place := by
  unfold locate at h
  dsimp only at h
  split at h
  next => cases h
  next k hk =>
    cases address with
    | knot id =>
        by_cases hbody : k.bodyEnd ≠ 0 ∨ k.stitches = []
        · exact ⟨k, 0, 0, .body hk hbody⟩
        · obtain ⟨hempty, hstitches⟩ := not_or.mp hbody
          exact ⟨k, 1, k.edge 1, .first hk (Decidable.not_not.mp hempty) hstitches⟩
    | stitch id index =>
        dsimp only at h
        split at h
        next => cases h
        next stitch hstitch =>
          have hindex := (List.getElem?_eq_some_iff.mp hstitch).1
          exact ⟨k, index + 1, k.edge (index + 1), .stitch hk hindex⟩
    | gather id gatherId =>
        dsimp only at h
        split at h
        next => cases h
        next gather hgather =>
          have hfollows := (Script.ordered hk).follows gather (List.mem_of_find?_eq_some hgather)
          obtain ⟨part, hpart⟩ := Knot.exists_holds hfollows
          exact ⟨k, part, gather.start, .gather hk hgather hpart⟩

end Script

/-- A location has the object at a place in its range. -/
def Location.Covers (location : Location) (index : Nat) : Prop :=
  location.start ≤ index ∧ index < location.stop

/-- What a range that starts at an edge covers is in one part, which starts there. -/
theorem Knot.Ordered.holds_of_covered {k : Knot} (h : k.Ordered) {n index : Nat}
    (hstart : k.edge n ≤ index) (hstop : index < k.segmentEnd (k.edge n)) :
    ∃ part, k.Holds part index ∧ k.edge part = k.edge n ∧ k.edge n < k.objects.length := by
  have hsome : k.edge n < k.objects.length := by
    by_contra hnone
    rw [h.segmentEnd_of_le (Nat.le_of_not_lt hnone)] at hstop
    omega
  obtain ⟨part, hpart⟩ := Knot.exists_holds hsome
  rw [h.segmentEnd_eq hpart] at hstop
  obtain ⟨_, hedge⟩ := h.edge_eq_of_holds hpart
  exact ⟨part, ⟨hpart.isPart, by omega, hstop⟩, hedge, hsome⟩

theorem Script.locate_stitch {script : Script} {id : KnotId} {k : Knot} {index : Nat}
    {location : Location} (hk : script.knot? id = some k)
    (h : script.locate (.stitch id index) = .ok location) :
    location.start = k.edge (index + 1) ∧
      location.stop = k.segmentEnd (k.edge (index + 1)) := by
  obtain ⟨k', part, place, hnames⟩ := names_of_locate h
  cases hnames with
  | stitch hk' hindex =>
      obtain rfl : k' = k := Option.some.inj (hk'.symm.trans hk)
      obtain ⟨found, hfound, _, hstart, hstop⟩ := (Names.stitch hk' hindex).locate_eq
      obtain rfl : found = location := Except.ok.inj (hfound.symm.trans h)
      exact ⟨hstart, hstop⟩

/-- Two stitches lead to the same object, exactly if they start at the same place and there is an
object. -/
theorem Script.covers_both_iff {script : Script} {id : KnotId} {k : Knot} {i j : Nat}
    {first second : Location} (hk : script.knot? id = some k)
    (hfirst : script.locate (.stitch id i) = .ok first)
    (hsecond : script.locate (.stitch id j) = .ok second) :
    (∃ index, first.Covers index ∧ second.Covers index) ↔
      first.start = second.start ∧ first.start < k.objects.length := by
  have hordered := Script.ordered hk
  obtain ⟨hstart, hstop⟩ := locate_stitch hk hfirst
  obtain ⟨hstart', hstop'⟩ := locate_stitch hk hsecond
  unfold Location.Covers
  rw [hstart, hstop, hstart', hstop']
  constructor
  · rintro ⟨index, ⟨hlow, hhigh⟩, hlow', hhigh'⟩
    obtain ⟨part, hpart, hedge, hsome⟩ := hordered.holds_of_covered hlow hhigh
    obtain ⟨other, hother, hedge', _⟩ := hordered.holds_of_covered hlow' hhigh'
    obtain rfl := hordered.holds_unique hpart hother
    exact ⟨hedge.symm.trans hedge', hsome⟩
  · rintro ⟨hsame, hsome⟩
    obtain ⟨part, hpart⟩ := Knot.exists_holds hsome
    have hlater : k.edge (i + 1) < k.segmentEnd (k.edge (i + 1)) := by
      rw [hordered.segmentEnd_eq hpart]
      exact hpart.lt_stop
    exact ⟨k.edge (i + 1), ⟨Nat.le_refl _, hlater⟩, hsame ▸ Nat.le_refl _, hsame ▸ hlater⟩

/-! ## Walking through a knot -/

namespace Story

variable {story : Story}

/-- A fact about frames that holds wherever control is sent, and goes on to hold as a frame walks
on, runs content inside a node, or is kept for a choice. -/
structure Carries (story : Story) (holds : Frame → Prop) : Prop where
  landed {address : Address} {location : Location} {k : Knot} (kind : FrameKind) :
    story.script.locate address = .ok location → story.script.knot? location.knot = some k →
      holds (.atLocation kind k.objects location)
  next? {frame next : Frame} {cursor : Cursor} :
    frame.next? = some (cursor, next) → holds frame → holds next
  pushContent {frame : Frame} (content : Content) : holds frame → holds (frame.pushContent content)
  samePlace {frame other : Frame} : frame.SamePlace other → holds other → holds frame

/-- Every frame has the fact, and every frame that a choice on offer goes on with. -/
structure Carried (holds : Frame → Prop) (s : State) : Prop where
  frames : ∀ frame ∈ s.frames.items, holds frame
  choices : ∀ choice ∈ s.choices, ∀ frame ∈ choice.resume.map (·.1), holds frame

theorem Carried.happens {holds : Frame → Prop} (hcarries : story.Carries holds) {s t : State}
    {events : List Event} (h : Carried holds s) (hhappens : story.Happens s events t) :
    Carried holds t := by
  cases hhappens with
  | quiet hstill => exact ⟨hstill.frames ▸ h.frames, hstill.choices ▸ h.choices⟩
  | posed status => exact ⟨h.frames, h.choices⟩
  | @reached frame next cursor htop hnext =>
      refine ⟨?_, (sameBelow_past htop hnext).choices ▸ h.choices⟩
      rw [frames_past]
      refine Stack.forall_mapTop h.frames fun _ _ => ?_
      exact hcarries.next? hnext (h.frames frame (List.mem_of_head? htop))
  | nested _ _ =>
      refine ⟨Stack.forall_mapTop h.frames fun top htop => ?_, h.choices⟩
      exact hcarries.pushContent _ (h.frames top (List.mem_of_head? htop))
  | entered hlocate hknot hplaced hturn _ =>
      refine ⟨hplaced.forall h.frames fun kind => ?_, hturn.choices ▸ h.choices⟩
      exact hcarries.landed kind hlocate hknot
  | refused hlocate hknot hplaced hturn _ =>
      refine ⟨hplaced.forall h.frames fun kind => ?_, hturn.choices ▸ h.choices⟩
      exact hcarries.landed kind hlocate hknot
  | left => exact ⟨fun frame hframe => h.frames frame (List.mem_of_mem_tail hframe), h.choices⟩
  | offered hopens =>
      refine ⟨h.frames, fun choice hchoice => ?_⟩
      rcases List.mem_append.mp hchoice with hold | hnew
      · exact h.choices choice hold
      · obtain rfl := List.mem_singleton.mp hnew
        obtain ⟨scopes, hresume⟩ := hopens.resume
        intro frame hframe
        obtain ⟨⟨resumed, scope⟩, hmem, rfl⟩ := List.mem_map.mp hframe
        obtain ⟨other, hother, hplace⟩ := samePlace_of_mem_resumePoint (hresume ▸ hmem)
        exact hcarries.samePlace hplace (h.frames other hother)
  | halted => exact ⟨nofun, h.choices⟩
  | withdrawn => exact ⟨h.frames, nofun⟩
  | @made choice hmem =>
      have hresumed := h.choices choice hmem
      have hitems : ∀ frame ∈ (Stack.ofList (choice.resume.map (·.1))).items, _ := hresumed
      refine ⟨Stack.forall_mapTop hitems fun top htop => ?_, nofun⟩
      exact hcarries.pushContent _ (hresumed top (List.mem_of_head? htop))

theorem Carried.trace {holds : Frame → Prop} (hcarries : story.Carries holds) {s t : State}
    {log : List Event} (h : Carried holds s) (htrace : story.Trace s log t) : Carried holds t := by
  induction htrace with
  | refl => exact h
  | next _ hhappens ih => exact ih.happens hcarries hhappens

theorem Reachable.carried {holds : Frame → Prop} (hcarries : story.Carries holds) {s : State}
    (h : story.Reachable s) : Carried holds s := by
  obtain ⟨log, hlog⟩ := h.history
  have hseed : Carried holds (.ofSeed story.config.seed) := ⟨nofun, nofun⟩
  exact hseed.trace hcarries hlog.trace

/-- A cursor walks through the objects of a knot, and to the end of the part that it is in. -/
def WithinPart (script : Script) (id : KnotId) (cursor : Cursor) : Prop :=
  ∃ k, script.knot? id = some k ∧ cursor.content = k.objects ∧
    (cursor.index < cursor.stop →
      ∃ part, k.Holds part cursor.index ∧ cursor.stop = k.edge (part + 1))

theorem withinPart_ofLocation {address : Address} {location : Location} {k : Knot}
    (hlocate : story.script.locate address = .ok location)
    (hk : story.script.knot? location.knot = some k) :
    WithinPart story.script location.knot (.ofLocation k.objects location) := by
  refine ⟨k, hk, rfl, fun hleft => ?_⟩
  obtain ⟨k', part, place, hnames⟩ := Script.names_of_locate hlocate
  obtain ⟨found, hfound, hknot, hstart, hstop⟩ := hnames.locate_eq
  obtain rfl : found = location := Except.ok.inj (hfound.symm.trans hlocate)
  have hsame := hnames.knot?_eq
  rw [← hknot, hk] at hsame
  obtain rfl := Option.some.inj hsame
  have hordered := Script.ordered hk
  have hmin : found.start < min found.stop k.objects.length := hleft
  have hobject : found.start < k.objects.length := by omega
  obtain ⟨other, hother⟩ := Knot.exists_holds hobject
  refine ⟨other, hother, ?_⟩
  have hend : found.stop = k.edge (other + 1) := by
    rw [hstop, ← hstart, hordered.segmentEnd_eq hother]
  show min found.stop k.objects.length = k.edge (other + 1)
  rw [hend, Nat.min_eq_left (hordered.edge_le _)]

/-- A cursor that goes past a node stays in its part, or comes to the end of it. -/
theorem WithinPart.advance {script : Script} {id : KnotId} {cursor : Cursor}
    (h : WithinPart script id cursor) :
    WithinPart script id { cursor with index := cursor.index + 1 } := by
  obtain ⟨k, hk, hcontent, hpart⟩ := h
  refine ⟨k, hk, hcontent, fun hleft => ?_⟩
  have hmore : cursor.index + 1 < cursor.stop := hleft
  obtain ⟨part, hholds, hstop⟩ := hpart (Nat.lt_of_succ_lt hmore)
  refine ⟨part, ⟨hholds.isPart, Nat.le_succ_of_le hholds.start_le, ?_⟩, hstop⟩
  exact hstop ▸ hmore

/-- The cursors of a frame that walk through a knot keep to its parts. -/
def KeepsToParts (script : Script) (frame : Frame) : Prop :=
  ∀ cursor ∈ frame.cursors, cursor.topLevel = true → WithinPart script frame.knot cursor

theorem carries_keepsToParts (story : Story) : story.Carries (KeepsToParts story.script) where
  landed _ hlocate hk := by
    intro cursor hcursor _
    obtain rfl := List.mem_singleton.mp hcursor
    exact withinPart_ofLocation hlocate hk
  next? hnext h := by
    obtain ⟨hknot, outer, hcursors, hmem, houter⟩ := Frame.of_next? hnext
    intro other hother htop
    rw [hcursors] at hother
    rw [hknot]
    rcases List.mem_cons.mp hother with rfl | hother
    · exact (h _ hmem htop).advance
    · exact h other (houter hother) htop
  pushContent content h := by
    unfold Frame.pushContent
    split
    · exact h
    · intro cursor hcursor htop
      rcases List.mem_cons.mp hcursor with rfl | hcursor
      · cases htop
      · exact h cursor hcursor htop
  samePlace hplace h := by
    unfold KeepsToParts
    rw [hplace.knot, hplace.cursors]
    exact h

theorem lt_stop_of_next? {frame next : Frame} {cursor : Cursor}
    (h : frame.next? = some (cursor, next)) : cursor.index < cursor.stop := by
  have hleft {cursors outer : List Cursor} (hfound : Frame.nextCursor? cursors =
      some (cursor, outer)) : cursor.isDone = false := by
    induction cursors with
    | nil => cases hfound
    | cons first rest ih =>
        rw [Frame.nextCursor?] at hfound
        split at hfound
        next => exact ih hfound
        next hdone =>
          cases hfound
          exact Bool.eq_false_iff.mpr hdone
  unfold Frame.next? at h
  obtain ⟨⟨found, outer⟩, hfound, hframe⟩ := Option.map_eq_some_iff.mp h
  obtain ⟨rfl, _⟩ := Prod.mk.inj hframe
  exact Nat.lt_of_not_le (of_decide_eq_false (hleft hfound))

/-- Control that is sent to an address starts at the place that is named and goes to the end of the
part that holds the object there.  This is the part that was named, unless nothing is left of it
and something of the knot.  Control that walks through a knot always goes to the end of the part
that it is in, so behind choices it does not leave their part.  And two stitches lead to the same
object, exactly if they start at the same place. -/
theorem located_parts (story : Story) :
    (∀ address k part place, story.script.Names address k part place →
      ∃ location, story.script.locate address = .ok location ∧
        location.knot = address.knotId ∧ location.start = place ∧
        (location.stop = k.edge (part + 1) ↔
          place < k.edge (part + 1) ∨ place = k.objects.length) ∧
        ∀ other, k.Holds other place → location.stop = k.edge (other + 1)) ∧
    (∀ address location, story.script.locate address = .ok location →
      ∃ k part place, story.script.Names address k part place) ∧
    (∀ s frame cursor next, story.Reachable s → s.frames.top? = some frame →
      frame.next? = some (cursor, next) → cursor.topLevel = true →
      ∃ k part, story.script.knot? frame.knot = some k ∧ cursor.content = k.objects ∧
        k.Holds part cursor.index ∧ cursor.stop = k.edge (part + 1) ∧
        next.cursors.head? = some { cursor with index := cursor.index + 1 }) ∧
    ∀ id k i j first second, story.script.knot? id = some k →
      story.script.locate (.stitch id i) = .ok first →
      story.script.locate (.stitch id j) = .ok second →
      ((∃ index, first.Covers index ∧ second.Covers index) ↔
        first.start = second.start ∧ first.start < k.objects.length) := by
  refine ⟨?_, ?_, ?_, ?_⟩
  · intro address k part place hnames
    obtain ⟨location, hlocate, hknot, hstart, hstop⟩ := hnames.locate_eq
    refine ⟨location, hlocate, hknot, hstart, ?_, fun other hother => ?_⟩
    · rw [hstop]
      exact hnames.segmentEnd_eq_iff
    · rw [hstop]
      exact (Script.ordered hnames.knot?_eq).segmentEnd_eq hother
  · intro address location hlocate
    exact Script.names_of_locate hlocate
  · intro s frame cursor next hreach htop hnext hwalks
    obtain ⟨_, outer, hcursors, hmem, _⟩ := Frame.of_next? hnext
    have hkeeps := (hreach.carried story.carries_keepsToParts).frames frame (List.mem_of_head? htop)
    obtain ⟨k, hk, hcontent, hpart⟩ := hkeeps cursor hmem hwalks
    obtain ⟨part, hholds, hstop⟩ := hpart (lt_stop_of_next? hnext)
    refine ⟨k, part, hk, hcontent, hholds, hstop, ?_⟩
    rw [hcursors, List.head?_cons]
  · intro id k i j first second hk hfirst hsecond
    exact Script.covers_both_iff hk hfirst hsecond

/-- The gather of `hallway`. -/
def hallwayGather : Gather :=
  { name := "meet", id := ⟨5⟩, level := 1, choiceIndex := 0 }

/-- A knot with choices in its body and a gather behind them, an empty stitch, and a stitch with an
object. -/
def hallwayKnot : Knot where
  name := "hallway"
  id := ⟨1⟩
  parameters := []
  objects := [.choice ⟨2⟩ [⟨[.text "Go"], [], false, [], false, false⟩], .text "Cellar."]
  stitches :=
    [{ name := "attic", id := ⟨3⟩, offset := 1, gathers := [] },
     { name := "cellar", id := ⟨4⟩, offset := 1, gathers := [] }]
  gathers := [hallwayGather]
  isFunction := false

/-- A story of that knot alone. -/
def hallway : Story where
  script := { knots := [hallwayKnot], sound := rfl }

/-- The cellar is where it should be, and control that starts in the body stops at its end. -/
theorem located_parts_of_hallway :
    (∃ location, hallway.script.locate (.stitch ⟨0⟩ 1) = .ok location ∧ location.start = 1 ∧
      location.stop = 2) ∧
    ∃ s frame cursor next, hallway.Reachable s ∧ s.frames.top? = some frame ∧
      frame.next? = some (cursor, next) ∧ cursor.topLevel = true ∧ cursor.index = 0 ∧
      cursor.stop = 1 := by
  obtain ⟨hnamed, _, hwalked, _⟩ := located_parts hallway
  have hknot : hallway.script.knot? ⟨0⟩ = some hallwayKnot := rfl
  constructor
  · have hcellar : hallway.script.Names (.stitch ⟨0⟩ 1) hallwayKnot 2 1 :=
      .stitch hknot (by decide)
    obtain ⟨location, hlocate, _, hstart, hstop, _⟩ := hnamed _ _ _ _ hcellar
    exact ⟨location, hlocate, hstart, hstop.mpr (.inl (by decide))⟩
  · have hrun : (hallway.start.toOption.map fun s => (s.frames.top?.bind fun frame =>
        frame.next?.map fun found => (frame.knot, found.1.topLevel, found.1.index))) =
        some (some (⟨0⟩, true, 0)) := by decide +kernel
    obtain ⟨s, hstart, hrun⟩ := exists_start hrun
    obtain ⟨frame, htop, hframe⟩ := Option.bind_eq_some_iff.mp hrun
    obtain ⟨⟨cursor, next⟩, hnext, hfound⟩ := Option.map_eq_some_iff.mp hframe
    simp only [Prod.mk.injEq] at hfound
    obtain ⟨hid, hwalks, hindex⟩ := hfound
    have hreach : hallway.Reachable s := .start hstart
    obtain ⟨k, part, hk, _, hholds, hstop, _⟩ :=
      hwalked s frame cursor next hreach htop hnext hwalks
    rw [hid, hknot] at hk
    obtain rfl := Option.some.inj hk
    -- The choices are in the body, and so nowhere else.
    have hbody : hallwayKnot.Holds 0 0 := ⟨by decide, by decide, by decide⟩
    rw [hindex] at hholds
    obtain rfl := (Script.ordered hknot).holds_unique hholds hbody
    exact ⟨s, frame, cursor, next, hreach, htop, hnext, hwalks, hindex, hstop⟩

/-- The empty attic and the gather at the end of the body both lead into the cellar, though the
parts that they name end where they start. -/
theorem hallway_leads_on :
    hallway.script.Names (.stitch ⟨0⟩ 0) hallwayKnot 1 1 ∧
      hallway.script.Names (.gather ⟨0⟩ ⟨5⟩) hallwayKnot 0 1 ∧
      hallwayKnot.edge 1 = 1 ∧ hallwayKnot.edge 2 = 1 ∧
      hallway.script.locate (.stitch ⟨0⟩ 0) = .ok ⟨⟨0⟩, 1, 2, [⟨3⟩], none⟩ ∧
      hallway.script.locate (.stitch ⟨0⟩ 1) = .ok ⟨⟨0⟩, 1, 2, [⟨4⟩], none⟩ ∧
      hallway.script.locate (.gather ⟨0⟩ ⟨5⟩) = .ok ⟨⟨0⟩, 1, 2, [⟨5⟩], some 1⟩ := by
  have hknot : hallway.script.knot? ⟨0⟩ = some hallwayKnot := rfl
  have hbody : hallwayKnot.Holds 0 0 := ⟨by decide, by decide, by decide⟩
  have hgather : (hallwayKnot.allGathers.find? fun gather => gather.id = ⟨5⟩) =
      some hallwayGather := by decide
  have hmeet : hallway.script.Names (.gather ⟨0⟩ ⟨5⟩) hallwayKnot 0 hallwayGather.start :=
    .gather hknot hgather hbody
  exact ⟨.stitch hknot (by decide), hmeet, rfl, rfl, rfl, rfl, rfl⟩

end Story

end Skein
