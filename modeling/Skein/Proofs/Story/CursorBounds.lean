import Skein.Proofs.Story.Segments
import Skein.Proofs.Story.Visits

set_option autoImplicit false

/-!
# Story: cursors stay within their content

A path is resolved to an address, the address is looked up again for the identity that its visits
are counted by, and once more for the place where control lands.  What the first finds the others
find too, and the place is a range of the objects of a knot that there is.  From there on cursors
walk, are kept for choices and are put back, and none of them ever gets behind its content.  So a
step that comes to a place finds a node there.
-/

namespace Skein

open Outcome Contract

/-- From a place in the objects on, the end that is found is not before it and still in the
objects. -/
theorem Knot.Ordered.segmentEnd_bounds {k : Knot} (h : k.Ordered) {index : Nat}
    (hindex : index ≤ k.objects.length) :
    index ≤ k.segmentEnd index ∧ k.segmentEnd index ≤ k.objects.length := by
  unfold segmentEnd
  split
  next stitch hfound =>
    have hafter : index < stitch.offset := by simpa using List.find?_some hfound
    exact ⟨Nat.le_of_lt hafter, h.within stitch (List.mem_of_find?_eq_some hfound)⟩
  next => exact ⟨hindex, Nat.le_refl _⟩

namespace Script

variable {script : Script}

/-! ## What is found again -/

theorem exists_locate_knot {id : KnotId} {k : Knot} (hk : script.knot? id = some k) :
    ∃ location, script.locate (.knot id) = .ok location := by
  refine ⟨locateKnot id k, ?_⟩
  simp only [locate, Address.knotId, hk]

theorem exists_locate_stitch {id : KnotId} {k : Knot} {index : Nat} {stitch : Stitch}
    (hk : script.knot? id = some k) (hstitch : k.stitches[index]? = some stitch) :
    ∃ location, script.locate (.stitch id index) = .ok location := by
  simp only [locate, Address.knotId, hk, hstitch]
  exact ⟨_, rfl⟩

/-- The gather that is found may be another one with the same identity. -/
theorem exists_locate_gather {id : KnotId} {k : Knot} {gather : Gather}
    (hk : script.knot? id = some k) (hgather : gather ∈ k.allGathers) :
    ∃ location, script.locate (.gather id gather.id) = .ok location := by
  simp only [locate, Address.knotId, hk]
  split
  next hnone =>
    have hother := List.find?_eq_none.mp hnone gather hgather
    exact absurd (decide_eq_true rfl) hother
  next => exact ⟨_, rfl⟩

theorem exists_locate_of_knotId? {name : String} {id : KnotId} (h : script.knotId? name = some id) :
    ∃ location, script.locate (.knot id) = .ok location := by
  obtain ⟨index, hindex, rfl⟩ := Option.map_eq_some_iff.mp h
  obtain ⟨hlt, _⟩ := List.findIdx?_eq_some_iff_getElem.mp hindex
  exact exists_locate_knot (List.getElem?_eq_getElem hlt)

theorem mem_of_namedGather? {gathers : List Gather} {name : String} {gather : Gather}
    (h : namedGather? gathers name = some gather) : gather ∈ gathers := by
  unfold namedGather? at h
  split at h
  · cases h
  · exact List.mem_of_find?_eq_some h

theorem exists_locate_of_local? {id : KnotId} {name : String} {address : Address}
    (h : script.local? id name = some address) :
    ∃ location, script.locate address = .ok location := by
  obtain ⟨k, hk, h⟩ := Option.bind_eq_some_iff.mp h
  split at h
  · next index hindex =>
      cases h
      obtain ⟨hlt, _⟩ := List.findIdx?_eq_some_iff_getElem.mp hindex
      exact exists_locate_stitch hk (List.getElem?_eq_getElem hlt)
  · obtain ⟨gather, hgather, h⟩ := Option.bind_eq_some_iff.mp h
    cases h
    exact exists_locate_gather hk (List.mem_append_left _ (mem_of_namedGather? hgather))

theorem exists_locate_of_stitchGather? {id : KnotId} {stitch name : String} {address : Address}
    (h : script.stitchGather? id stitch name = some address) :
    ∃ location, script.locate address = .ok location := by
  obtain ⟨k, hk, h⟩ := Option.bind_eq_some_iff.mp h
  obtain ⟨found, hfound, h⟩ := Option.bind_eq_some_iff.mp h
  obtain ⟨gather, hgather, h⟩ := Option.bind_eq_some_iff.mp h
  cases h
  refine exists_locate_gather hk (List.mem_append_right _ (List.mem_flatMap.mpr ⟨found, ?_, ?_⟩))
  · exact List.mem_of_find?_eq_some hfound
  · exact mem_of_namedGather? hgather

/-- What a path names can be located. -/
theorem exists_locate_of_address? {current : Option KnotId} {parts : List String}
    {address : Address} (h : script.address? current parts = some address) :
    ∃ location, script.locate address = .ok location := by
  unfold address? at h
  split at h
  · rcases Option.or_eq_some_iff.mp h with h | ⟨_, h⟩
    · obtain ⟨id, _, hlocal⟩ := Option.bind_eq_some_iff.mp h
      exact exists_locate_of_local? hlocal
    · obtain ⟨id, hid, rfl⟩ := Option.map_eq_some_iff.mp h
      exact exists_locate_of_knotId? hid
  · rcases Option.or_eq_some_iff.mp h with h | ⟨_, h⟩
    · obtain ⟨id, _, hlocal⟩ := Option.bind_eq_some_iff.mp h
      exact exists_locate_of_local? hlocal
    · obtain ⟨id, _, hgather⟩ := Option.bind_eq_some_iff.mp h
      exact exists_locate_of_stitchGather? hgather
  · obtain ⟨id, _, hgather⟩ := Option.bind_eq_some_iff.mp h
    exact exists_locate_of_stitchGather? hgather
  · cases h

theorem exists_locate_of_resolve {path : String} {current : Option KnotId} {address : Address}
    (h : script.resolve path current = .ok address) :
    ∃ location, script.locate address = .ok location := by
  unfold resolve at h
  dsimp only at h
  split at h
  · cases h
  · split at h
    · next found hfound =>
        cases h
        exact exists_locate_of_address? hfound
    · cases h

namespace Lands

variable {address : Address} {location : Location}

/-- Control lands in a range of the objects of a knot. -/
theorem bounds (h : script.Lands address location) :
    ∃ k, script.knot? location.knot = some k ∧ location.start ≤ location.stop ∧
      location.stop ≤ k.objects.length := by
  cases h with
  | @body _ k hk => exact ⟨k, hk, Nat.zero_le _, k.bodyEnd_eq ▸ (Script.ordered hk).edge_le 1⟩
  | @first _ k stitch rest hk hstitches _ =>
      have hordered := Script.ordered hk
      have hmem : stitch ∈ k.stitches := hstitches ▸ List.mem_cons_self
      exact ⟨k, hk, hordered.segmentEnd_bounds (hordered.within stitch hmem)⟩
  | @stitch _ k index stitch hk hstitch =>
      have hordered := Script.ordered hk
      have hmem := List.mem_of_getElem? hstitch
      exact ⟨k, hk, hordered.segmentEnd_bounds (hordered.within stitch hmem)⟩
  | @gather _ k gather hk hgather =>
      have hordered := Script.ordered hk
      exact ⟨k, hk, hordered.segmentEnd_bounds (hordered.follows gather hgather)⟩

/-- The section that an address names is the first that control enters there. -/
theorem idOf?_eq (h : script.Lands address location) :
    ∃ id, script.idOf? address = some id ∧ location.visits.head? = some id := by
  unfold idOf?
  cases h with
  | body hk | first hk _ _ | gather hk _ =>
      rw [Address.knotId, hk]
      exact ⟨_, rfl, rfl⟩
  | stitch hk hstitch =>
      rw [Address.knotId, hk]
      simp only [Option.bind_eq_bind, Option.bind_some, hstitch]
      exact ⟨_, rfl, rfl⟩

end Lands

end Script

/-! ## Cursors -/

/-- A cursor is within its content, or at the end of it. -/
structure Cursor.Within (c : Cursor) : Prop where
  index_le : c.index ≤ c.stop
  stop_le : c.stop ≤ c.content.length

/-- A cursor that is not done has a node before it. -/
theorem Cursor.Within.exists_node {c : Cursor} (h : c.Within) (hleft : c.index < c.stop) :
    ∃ node, c.content[c.index]? = some node ∧ c.peek? = some node := by
  have hlt : c.index < c.content.length := Nat.lt_of_lt_of_le hleft h.stop_le
  refine ⟨c.content[c.index], List.getElem?_eq_getElem hlt, ?_⟩
  have hdone : c.isDone = false := decide_eq_false (Nat.not_le.mpr hleft)
  rw [Cursor.peek?, hdone]
  exact List.getElem?_eq_getElem hlt

/-- All cursors of a frame are within their content. -/
def Frame.Within (frame : Frame) : Prop := ∀ cursor ∈ frame.cursors, cursor.Within

namespace Story

variable {story : Story}

theorem carries_within (story : Story) : story.Carries Frame.Within where
  landed {address location k} _ hlocate hk := by
    intro cursor hcursor
    obtain rfl := List.mem_singleton.mp hcursor
    obtain ⟨found, hfound, hstart, hstop⟩ := (Script.lands_of_locate hlocate).bounds
    obtain rfl : found = k := Option.some.inj (hfound.symm.trans hk)
    exact ⟨Nat.le_min.mpr ⟨hstart, Nat.le_trans hstart hstop⟩, Nat.min_le_right _ _⟩
  next? hnext h := by
    obtain ⟨_, outer, hcursors, hmem, houter⟩ := Frame.of_next? hnext
    intro other hother
    rw [hcursors] at hother
    rcases List.mem_cons.mp hother with rfl | hother
    · exact ⟨lt_stop_of_next? hnext, (h _ hmem).stop_le⟩
    · exact h other (houter hother)
  pushContent content h := by
    unfold Frame.pushContent
    split
    · exact h
    · exact List.forall_mem_cons.mpr ⟨⟨Nat.zero_le _, Nat.le_refl _⟩, h⟩
  samePlace hplace h := by
    unfold Frame.Within
    rw [hplace.cursors]
    exact h

/-! ## All states -/

/-- A state that a story passes through.  Before it starts, functions may be called for the first
values of variables; a watch tells where among their steps to stop. -/
inductive Passes (story : Story) (s : State) : Prop where
  | loading (halt : State → Bool) :
      (story.declareUnder (story.watchedFunction halt story.config.callDepth)).Leaves
        (.ofSeed story.config.seed) s → Passes story s
  | attained : story.Attainable s → Passes story s

theorem Passes.traced {s : State} (h : story.Passes s) :
    story.Traced (.ofSeed story.config.seed) s := by
  cases h with
  | loading halt hleaves =>
      exact (tells_of_holds (chronicled_declareUnder (story.honours_watched halt))).leaves hleaves
  | attained hattained =>
      obtain ⟨log, hlog⟩ := hattained.exists_account
      exact ⟨log, hlog.trace⟩

/-- What carries over holds wherever a story passes. -/
theorem Passes.carried {holds : Frame → Prop} (hcarries : story.Carries holds) {s : State}
    (h : story.Passes s) : Carried holds s := by
  obtain ⟨log, htrace⟩ := h.traced
  have hseed : Carried holds (.ofSeed story.config.seed) := ⟨nofun, nofun⟩
  exact hseed.trace hcarries htrace

/-- A path that is resolved has an identity and a place, and the place is a range of the objects of
a knot.  In every state that a story passes through, the cursors of its frames and of the frames
that choices on offer go on with are within their content.  So a step that goes on to a place runs
the node that it finds there. -/
theorem bounds_of_passes (story : Story) :
    (∀ path current address, story.script.resolve path current = .ok address →
      ∃ id location k, story.script.idOf? address = some id ∧
        story.script.locate address = .ok location ∧ location.visits.head? = some id ∧
        story.script.knot? location.knot = some k ∧ location.start ≤ location.stop ∧
        location.stop ≤ k.objects.length) ∧
    ∀ s, story.Passes s →
      (∀ frame ∈ s.frames.items, ∀ cursor ∈ frame.cursors,
        cursor.index ≤ cursor.stop ∧ cursor.stop ≤ cursor.content.length) ∧
      (∀ choice ∈ s.choices, ∀ resumed ∈ choice.resume, ∀ cursor ∈ resumed.1.cursors,
        cursor.index ≤ cursor.stop ∧ cursor.stop ≤ cursor.content.length) ∧
      ∀ frame cursor next, s.frames.top? = some frame → frame.next? = some (cursor, next) →
        ∃ node, cursor.content[cursor.index]? = some node ∧ ∀ run,
          story.step run s = story.execute run frame.knot node (story.past s cursor next) := by
  constructor
  · intro path current address hresolve
    obtain ⟨location, hlocate⟩ := Script.exists_locate_of_resolve hresolve
    have hlands := Script.lands_of_locate hlocate
    obtain ⟨id, hid, hvisits⟩ := hlands.idOf?_eq
    obtain ⟨k, hk, hstart, hstop⟩ := hlands.bounds
    exact ⟨id, location, k, hid, hlocate, hvisits, hk, hstart, hstop⟩
  · intro s hs
    have hcarried := hs.carried story.carries_within
    refine ⟨?_, ?_, ?_⟩
    · intro frame hframe cursor hcursor
      have hwithin := hcarried.frames frame hframe cursor hcursor
      exact ⟨hwithin.index_le, hwithin.stop_le⟩
    · intro choice hchoice resumed hresumed cursor hcursor
      have hframe := hcarried.choices choice hchoice resumed.1 (List.mem_map_of_mem hresumed)
      exact ⟨(hframe cursor hcursor).index_le, (hframe cursor hcursor).stop_le⟩
    · intro frame cursor next htop hnext
      obtain ⟨hknot, _, _, hmem, _⟩ := Frame.of_next? hnext
      have hwithin := hcarried.frames frame (List.mem_of_head? htop) cursor hmem
      obtain ⟨node, hnode, hpeek⟩ := hwithin.exists_node (lt_stop_of_next? hnext)
      refine ⟨node, hnode, fun run => ?_⟩
      rw [← hknot]
      exact step_of_node htop hnext hpeek

/-- The gather at the end of the body of `hallway` has a place, and at the start of the story there
is a node to run. -/
theorem bounds_of_hallway :
    hallway.script.resolve "meet" (some ⟨0⟩) = .ok (.gather ⟨0⟩ ⟨5⟩) ∧
      (∃ id location k, hallway.script.idOf? (.gather ⟨0⟩ ⟨5⟩) = some id ∧
        hallway.script.locate (.gather ⟨0⟩ ⟨5⟩) = .ok location ∧
        location.visits.head? = some id ∧ hallway.script.knot? location.knot = some k ∧
        location.start ≤ location.stop ∧ location.stop ≤ k.objects.length) ∧
      ∃ s frame cursor next node, hallway.Passes s ∧ s.frames.top? = some frame ∧
        frame.next? = some (cursor, next) ∧ cursor.content[cursor.index]? = some node ∧
        hallway.step hallway.callFunction s =
          hallway.execute hallway.callFunction frame.knot node (hallway.past s cursor next) := by
  obtain ⟨hpaths, hstates⟩ := bounds_of_passes hallway
  have hresolve : hallway.script.resolve "meet" (some ⟨0⟩) = .ok (.gather ⟨0⟩ ⟨5⟩) := by
    decide +kernel
  refine ⟨hresolve, hpaths _ _ _ hresolve, ?_⟩
  have hrun : (hallway.start.toOption.map fun s =>
      (s.frames.top?.bind Frame.next?).isSome) = some true := by decide +kernel
  obtain ⟨s, hstart, hsome⟩ := exists_start hrun
  obtain ⟨⟨cursor, next⟩, hfound⟩ := Option.isSome_iff_exists.mp hsome
  obtain ⟨frame, htop, hnext⟩ := Option.bind_eq_some_iff.mp hfound
  have hpasses : hallway.Passes s := .attained (.start hstart)
  obtain ⟨_, _, hsteps⟩ := hstates s hpasses
  obtain ⟨node, hnode, hstep⟩ := hsteps frame cursor next htop hnext
  exact ⟨s, frame, cursor, next, node, hpasses, htop, hnext, hnode, hstep _⟩

end Story

end Skein
