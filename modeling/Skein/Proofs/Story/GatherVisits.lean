import Mathlib.Data.List.Nodup
import Skein.Proofs.Story.Chronicle

set_option autoImplicit false

/-!
# Story: visits of gathers

A gather is visited where control goes to it because it is named, and where a cursor that walks
the objects of its knot comes to its first object.  The second is told from the place alone: a
stitch that starts at the same place is taken for the gather, and of several gathers that start
there only the first is seen.

Where neither is the case, a cursor that comes to the first object of the gather has just walked
over the choices that the gather follows.  So the visits are the arrivals: by name, and from the
choices before.
-/

namespace Skein

/-! ## Counts of visits -/

namespace State

theorem timesVisited_congr {s t : State} (h : t.visits = s.visits) (id : NodeId) :
    t.timesVisited id = s.timesVisited id := by
  rw [timesVisited, timesVisited, visitOf, visitOf, h]

theorem timesVisited_visit (s : State) (id other : NodeId) :
    (s.visit id).timesVisited other = s.timesVisited other + if id = other then 1 else 0 := by
  unfold timesVisited visitOf visit
  by_cases h : id = other
  · subst h
    simp
  · simp [h]

theorem timesVisited_visitAll (s : State) (ids : List NodeId) (id : NodeId) :
    (s.visitAll ids).timesVisited id = s.timesVisited id + ids.count id := by
  induction ids generalizing s with
  | nil => rfl
  | cons first rest ih =>
      have hrest := ih (s.visit first)
      rw [timesVisited_visit] at hrest
      rw [List.count_cons]
      simp only [beq_iff_eq]
      show ((s.visit first).visitAll rest).timesVisited id = _
      rw [hrest]
      omega

/-- A choice that is made is one more turn since every visit. -/
theorem visits_fallBack (s : State) (choice : PendingChoice) :
    (s.fallBack choice).visits =
      s.visits.mapValues fun v => { v with turnsSince := v.turnsSince + 1 } := by
  have hmarked : (s.markTaken choice.knot choice.block choice.entry).visits = s.visits := by
    unfold markTaken
    split <;> rfl
  rw [← hmarked]
  rfl

/-- A choice that is made visits nothing. -/
theorem timesVisited_fallBack (s : State) (choice : PendingChoice) (id : NodeId) :
    (s.fallBack choice).timesVisited id = s.timesVisited id := by
  rw [timesVisited, timesVisited, visitOf, visitOf, visits_fallBack, Table.get?_mapValues]
  cases s.visits.get? id with
  | none => rfl
  | some v => rfl

end State

/-! ## Identities of sections -/

/-- The identities of a knot and of its stitches and gathers. -/
def Knot.sectionIds (k : Knot) : List NodeId :=
  k.id :: (k.stitches.map (·.id) ++ k.allGathers.map (·.id))

namespace Script

/-- No two sections of a script have the same identity. -/
def HasUniqueSections (script : Script) : Prop := (script.knots.flatMap Knot.sectionIds).Nodup

instance (script : Script) : Decidable script.HasUniqueSections :=
  inferInstanceAs (Decidable (script.knots.flatMap Knot.sectionIds).Nodup)

variable {script : Script}

/-- An identity tells in which knot a section is. -/
theorem knotId_eq (hunique : script.HasUniqueSections) {first second : KnotId} {k l : Knot}
    (hk : script.knot? first = some k) (hl : script.knot? second = some l) {id : NodeId}
    (hfirst : id ∈ k.sectionIds) (hsecond : id ∈ l.sectionIds) : first = second := by
  obtain ⟨i, rfl⟩ : ∃ i, first = ⟨i⟩ := ⟨first.index, rfl⟩
  obtain ⟨j, rfl⟩ : ∃ j, second = ⟨j⟩ := ⟨second.index, rfl⟩
  obtain ⟨hi, rfl⟩ := List.getElem?_eq_some_iff.mp hk
  obtain ⟨hj, rfl⟩ := List.getElem?_eq_some_iff.mp hl
  have hpairs := List.pairwise_iff_getElem.mp (List.nodup_flatMap.mp hunique).2
  rcases Nat.lt_trichotomy i j with hlt | rfl | hgt
  · exact absurd hsecond (hpairs i j hi hj hlt hfirst)
  · rfl
  · exact absurd hfirst (hpairs j i hj hi hgt hsecond)

theorem nodup_sectionIds (hunique : script.HasUniqueSections) {id : KnotId} {k : Knot}
    (hk : script.knot? id = some k) : k.sectionIds.Nodup :=
  (List.nodup_flatMap.mp hunique).1 k (List.mem_of_getElem? hk)

end Script

namespace Knot

variable {k : Knot} {g : Gather}

theorem id_mem_sectionIds (hg : g ∈ k.allGathers) : g.id ∈ k.sectionIds :=
  List.mem_cons_of_mem _ (List.mem_append_right _ (List.mem_map_of_mem hg))

theorem gather_eq (hunique : k.sectionIds.Nodup) {other : Gather} (hg : g ∈ k.allGathers)
    (hother : other ∈ k.allGathers) (hid : other.id = g.id) : other = g := by
  have hgathers := (List.nodup_append.mp (List.nodup_cons.mp hunique).2).2.1
  exact List.inj_on_of_nodup_map hgathers hother hg hid

theorem gather_id_ne (hunique : k.sectionIds.Nodup) (hg : g ∈ k.allGathers) :
    k.id ≠ g.id ∧ ∀ stitch ∈ k.stitches, stitch.id ≠ g.id := by
  obtain ⟨hknot, hrest⟩ := List.nodup_cons.mp hunique
  have hmem : g.id ∈ k.allGathers.map (·.id) := List.mem_map_of_mem hg
  refine ⟨?_, fun stitch hstitch => ?_⟩
  · intro heq
    exact hknot (heq ▸ List.mem_append_right _ hmem)
  · exact (List.nodup_append.mp hrest).2.2 _ (List.mem_map_of_mem hstitch) _ hmem

theorem mem_of_gatherAt? {index : Nat} (h : k.gatherAt? index = some g) :
    g ∈ k.allGathers ∧ g.start = index :=
  ⟨List.mem_of_find?_eq_some h, by simpa using List.find?_some h⟩

end Knot

/-! ## Events and arrivals -/

namespace Event

/-- Whether an event names a gather. -/
def names (id : KnotId) (g : Gather) : Event → Bool
  | .entered (.gather knot gather) _ => knot = id && gather = g.id
  | _ => false

/-- Whether an event is taken for an arrival at a gather: the gather is named, or a cursor comes
to a place where it is the first gather to start, unless the cursor was put there for a
gather. -/
def visits (id : KnotId) (k : Knot) (g : Gather) : Event → Bool
  | .reached knot cursor => knot = id && cursor.arrives && k.gatherAt? cursor.index = some g
  | event => event.names id g

/-- Whether a cursor is at a place on the same walk through a knot as another cursor. -/
def walks (id : KnotId) (index : Nat) (cursor : Cursor) : Event → Bool
  | .reached knot other =>
    knot = id && other.topLevel && other.index = index && other.stop = cursor.stop &&
      other.counted = cursor.counted
  | _ => false

/-- Whether an event is an arrival at a gather, given what happened before: the gather is named,
or a cursor that has walked over the choices before the gather comes to its first object. -/
def arrivesAt (id : KnotId) (g : Gather) (before : List Event) : Event → Bool
  | .reached knot cursor =>
    knot = id && cursor.topLevel && cursor.index = g.start &&
      before.any (walks id g.choiceIndex cursor)
  | event => event.names id g

/-- The number of arrivals at a gather, of events latest first. -/
def arrivals (id : KnotId) (g : Gather) : List Event → Nat
  | [] => 0
  | event :: before => arrivals id g before + (arrivesAt id g before event).toNat

end Event

/-- A gather that can be told from its place: no stitch starts there, and no other gather that
comes before it. -/
def Knot.IsPlain (k : Knot) (g : Gather) : Prop :=
  k.gatherAt? g.start = some g ∧ ∀ stitch ∈ k.stitches, stitch.offset ≠ g.start

instance (k : Knot) (g : Gather) : Decidable (k.IsPlain g) :=
  inferInstanceAs (Decidable (_ ∧ _))

namespace Story

variable {story : Story}

/-! ## Visits are events -/

section Visits

variable (hunique : story.script.HasUniqueSections) {id : KnotId} {k : Knot} {g : Gather}
  (hk : story.script.knot? id = some k) (hg : g ∈ k.allGathers)

include hunique hk hg

/-- A knot that has a section with the identity of a gather is the knot of the gather. -/
theorem eq_of_mem_sectionIds {other : KnotId} {l : Knot} (hl : story.script.knot? other = some l)
    (hmem : g.id ∈ l.sectionIds) : other = id ∧ l = k := by
  have heq := Script.knotId_eq hunique hl hk hmem (Knot.id_mem_sectionIds hg)
  rw [heq, hk] at hl
  exact ⟨heq, (Option.some.inj hl).symm⟩

theorem gather_eq_of_id {other : KnotId} {l : Knot} {gather : Gather}
    (hl : story.script.knot? other = some l) (hgather : gather ∈ l.allGathers)
    (hid : gather.id = g.id) : other = id ∧ l = k ∧ gather = g := by
  obtain ⟨rfl, rfl⟩ := eq_of_mem_sectionIds hunique hk hg hl
    (hid ▸ Knot.id_mem_sectionIds hgather)
  exact ⟨rfl, rfl, Knot.gather_eq (Script.nodup_sectionIds hunique hk) hg hgather hid⟩

/-- Knots and stitches do not have the identity of a gather. -/
theorem section_id_ne {other : KnotId} {l : Knot} (hl : story.script.knot? other = some l) :
    l.id ≠ g.id ∧ ∀ stitch ∈ l.stitches, stitch.id ≠ g.id := by
  obtain ⟨hknot, hstitch⟩ := Knot.gather_id_ne (Script.nodup_sectionIds hunique hk) hg
  refine ⟨fun heq => ?_, fun stitch hmem heq => ?_⟩
  · have hmem : g.id ∈ l.sectionIds := heq ▸ List.mem_cons_self
    obtain ⟨_, rfl⟩ := eq_of_mem_sectionIds hunique hk hg hl hmem
    exact hknot heq
  · have hid : g.id ∈ l.sectionIds :=
      heq ▸ List.mem_cons_of_mem _ (List.mem_append_left _ (List.mem_map_of_mem hmem))
    obtain ⟨_, rfl⟩ := eq_of_mem_sectionIds hunique hk hg hl hid
    exact hstitch stitch hmem heq

/-- Only a gather that is named is among the sections that control enters. -/
theorem count_visits_of_lands {address : Address} {location : Location}
    (h : story.script.Lands address location) :
    location.visits.count g.id = (Event.names id g (.entered address location)).toNat := by
  cases h with
  | body hl => simp [Event.names, (section_id_ne hunique hk hg hl).1]
  | first hl hstitches _ =>
      obtain ⟨hknot, hstitch⟩ := section_id_ne hunique hk hg hl
      simp [Event.names, hknot, hstitch _ (hstitches ▸ List.mem_cons_self)]
  | stitch hl hstitch =>
      have hne := (section_id_ne hunique hk hg hl).2 _ (List.mem_of_getElem? hstitch)
      simp [Event.names, hne]
  | @gather other l gather hl hgather =>
      by_cases hid : gather.id = g.id
      · obtain ⟨rfl, rfl, rfl⟩ := gather_eq_of_id hunique hk hg hl hgather hid
        simp [Event.names]
      · simp [Event.names, hid]

/-- The gather found at a place of a knot has the identity of a gather only if it is that
gather. -/
theorem gatherAt?_iff (knot : KnotId) (index : Nat) :
    ((story.script.knot? knot).bind (·.gatherAt? index)).map (·.id) = some g.id ↔
      knot = id ∧ k.gatherAt? index = some g := by
  constructor
  · intro hfound
    obtain ⟨gather, hgather, hid⟩ := Option.map_eq_some_iff.mp hfound
    obtain ⟨l, hl, hat⟩ := Option.bind_eq_some_iff.mp hgather
    obtain ⟨rfl, rfl, rfl⟩ :=
      gather_eq_of_id hunique hk hg hl (Knot.mem_of_gatherAt? hat).1 hid
    exact ⟨rfl, hat⟩
  · rintro ⟨rfl, hat⟩
    rw [hk, Option.bind_some, hat, Option.map_some]

/-- A gather is visited by an event that is taken for an arrival there. -/
theorem timesVisited_arrive (knot : KnotId) (cursor : Cursor) (s : State) :
    (story.arrive knot cursor s).timesVisited g.id =
      s.timesVisited g.id + (Event.visits id k g (.reached knot cursor)).toNat := by
  have hiff := gatherAt?_iff hunique hk hg knot cursor.index
  unfold Story.arrive
  split
  · next harrives =>
      by_cases hat : knot = id ∧ k.gatherAt? cursor.index = some g
      · obtain ⟨gather, hgather, hid⟩ := Option.map_eq_some_iff.mp (hiff.mpr hat)
        rw [hgather]
        dsimp only
        rw [State.timesVisited_visit, if_pos hid]
        simp [Event.visits, harrives, hat]
      · have hnot : Event.visits id k g (.reached knot cursor) = false := by
          simpa [Event.visits, harrives] using hat
        rw [hnot]
        cases hfound : (story.script.knot? knot).bind (·.gatherAt? cursor.index) with
        | none => rfl
        | some gather =>
            have hid : gather.id ≠ g.id := by
              intro hid
              rw [hfound, Option.map_some, hid] at hiff
              exact hat (hiff.mp rfl)
            dsimp only
            rw [State.timesVisited_visit, if_neg hid]
            rfl
  · next harrives => simp [Event.visits, harrives]

/-- Every visit of a gather is an event. -/
theorem timesVisited_of_happens {s t : State} {events : List Event}
    (h : story.Happens s events t) :
    t.timesVisited g.id = s.timesVisited g.id + events.countP (Event.visits id k g) := by
  cases h with
  | quiet hstill => exact State.timesVisited_congr hstill.visits _
  | posed status => rfl
  | @reached frame next cursor _ _ =>
      rw [past, timesVisited_arrive hunique hk hg, List.countP_singleton]
      cases Event.visits id k g (.reached next.knot cursor) with
      | false => rfl
      | true => rfl
  | nested _ _ => rfl
  | @entered _ address location _ hlocate _ _ _ hvisits =>
      have hcount := count_visits_of_lands hunique hk hg (Script.lands_of_locate hlocate)
      rw [State.timesVisited_congr hvisits, State.timesVisited_visitAll, hcount,
        List.countP_singleton]
      show _ = _ + if Event.names id g (.entered address location) = true then 1 else 0
      cases Event.names id g (.entered address location) with
      | false => rfl
      | true => rfl
  | refused _ _ _ _ hvisits => exact State.timesVisited_congr hvisits _
  | left => rfl
  | offered _ => rfl
  | halted => rfl
  | withdrawn => rfl
  | @made choice _ => exact s.timesVisited_fallBack choice g.id

theorem timesVisited_of_trace {s t : State} {log : List Event} (h : story.Trace s log t) :
    t.timesVisited g.id = s.timesVisited g.id + log.countP (Event.visits id k g) := by
  induction h with
  | refl => rfl
  | next _ hhappens ih =>
      rw [timesVisited_of_happens hunique hk hg hhappens, ih, List.countP_append]
      omega

end Visits

/-! ## Cursors walk from their locations -/

/-- A cursor walks through a knot from where control landed, and has come to every place on the
way. -/
def Walked (story : Story) (log : List Event) (id : KnotId) (cursor : Cursor) : Prop :=
  ∃ address location, story.script.Lands address location ∧ location.knot = id ∧
    cursor.counted = location.gatherStart ∧ location.start ≤ cursor.index ∧
    ∀ index, location.start ≤ index → index < cursor.index →
      .reached id { cursor with index := index } ∈ log

/-- The cursors of a frame that are not inside other content walk through its knot. -/
def WalkedFrame (story : Story) (log : List Event) (frame : Frame) : Prop :=
  ∀ cursor ∈ frame.cursors, cursor.topLevel = true → story.Walked log frame.knot cursor

/-- Cursors walk: those of frames, those that choices go on with, and those of the past. -/
structure Strolling (story : Story) (log : List Event) (s : State) : Prop where
  frames : ∀ frame ∈ s.frames.items, story.WalkedFrame log frame
  choices : ∀ choice ∈ s.choices, ∀ frame ∈ choice.resume.map (·.1), story.WalkedFrame log frame
  events : ∀ id cursor, .reached id cursor ∈ log → cursor.topLevel = true →
    story.Walked log id cursor

theorem Walked.mono {log : List Event} {id : KnotId} {cursor : Cursor}
    (h : story.Walked log id cursor) (new : List Event) :
    story.Walked (new ++ log) id cursor := by
  obtain ⟨address, location, hlands, hknot, hcounted, hstart, hway⟩ := h
  refine ⟨address, location, hlands, hknot, hcounted, hstart, fun index hlow hhigh => ?_⟩
  exact List.mem_append_right _ (hway index hlow hhigh)

theorem WalkedFrame.mono {log : List Event} {frame : Frame} (h : story.WalkedFrame log frame)
    (new : List Event) : story.WalkedFrame (new ++ log) frame :=
  fun cursor hcursor htop => (h cursor hcursor htop).mono new

theorem WalkedFrame.samePlace {log : List Event} {frame other : Frame}
    (h : story.WalkedFrame log other) (hplace : frame.SamePlace other) :
    story.WalkedFrame log frame := by
  unfold WalkedFrame
  rw [hplace.knot, hplace.cursors]
  exact h

/-- Where control lands a cursor has nothing behind it. -/
theorem walkedFrame_atLocation {address : Address} {location : Location}
    (hlands : story.script.Lands address location) (log : List Event) (objects : Content)
    (kind : FrameKind) : story.WalkedFrame log (.atLocation kind objects location) := by
  intro cursor hcursor _
  obtain rfl := List.mem_singleton.mp hcursor
  refine ⟨address, location, hlands, rfl, rfl, Nat.le_refl _, fun index hlow hhigh => ?_⟩
  exact absurd hhigh (Nat.not_lt.mpr hlow)

theorem WalkedFrame.pushContent {log : List Event} {frame : Frame}
    (h : story.WalkedFrame log frame) (content : Content) :
    story.WalkedFrame log (frame.pushContent content) := by
  unfold Frame.pushContent
  split
  · exact h
  · intro cursor hcursor htop
    rcases List.mem_cons.mp hcursor with rfl | hcursor
    · cases htop
    · exact h cursor hcursor htop

/-- A cursor that goes past a node has come to that node. -/
theorem WalkedFrame.next? {log : List Event} {frame next : Frame} {cursor : Cursor}
    (h : story.WalkedFrame log frame) (hnext : frame.next? = some (cursor, next)) :
    story.WalkedFrame (.reached next.knot cursor :: log) next := by
  obtain ⟨hknot, outer, hcursors, hmem, houter⟩ := Frame.of_next? hnext
  intro other hother htop
  rw [hcursors] at hother
  rw [hknot]
  rcases List.mem_cons.mp hother with rfl | hother
  · obtain ⟨address, location, hlands, hat, hcounted, hstart, hway⟩ := h cursor hmem htop
    refine ⟨address, location, hlands, hat, hcounted, Nat.le_succ_of_le hstart, ?_⟩
    intro index hlow hhigh
    rcases Nat.lt_succ_iff_lt_or_eq.mp hhigh with hlt | rfl
    · exact List.mem_cons_of_mem _ (hway index hlow hlt)
    · exact List.mem_cons_self
  · exact (h other (houter hother) htop).mono [_]

/-- As long as no cursor moves, only frames and choices have to be looked at. -/
theorem Strolling.keep {log events : List Event} {s t : State} (h : story.Strolling log s)
    (hevents : ∀ id cursor, .reached id cursor ∉ events)
    (hframes : ∀ frame ∈ t.frames.items, story.WalkedFrame log frame)
    (hchoices : ∀ choice ∈ t.choices, ∀ frame ∈ choice.resume.map (·.1),
      story.WalkedFrame log frame) : story.Strolling (events ++ log) t := by
  refine ⟨fun frame hframe => (hframes frame hframe).mono _,
    fun choice hchoice frame hframe => (hchoices choice hchoice frame hframe).mono _, ?_⟩
  intro id cursor hmem htop
  rcases List.mem_append.mp hmem with hnew | hold
  · exact absurd hnew (hevents id cursor)
  · exact (h.events id cursor hold htop).mono _

theorem Strolling.happens {log events : List Event} {s t : State} (h : story.Strolling log s)
    (hhappens : story.Happens s events t) : story.Strolling (events ++ log) t := by
  cases hhappens with
  | quiet hstill =>
      refine h.keep nofun ?_ ?_
      · rw [hstill.frames]
        exact h.frames
      · rw [hstill.choices]
        exact h.choices
  | posed status => exact h.keep nofun h.frames h.choices
  | @reached frame next cursor htop hnext =>
      have hpast : s.SameBelow (story.past s cursor next) := sameBelow_past htop hnext
      have hframe := h.frames frame (List.mem_of_head? htop)
      obtain ⟨hknot, _, _, hmem, _⟩ := Frame.of_next? hnext
      refine ⟨?_, ?_, ?_⟩
      · rw [frames_past]
        refine Stack.forall_mapTop (fun other hother => ?_) fun _ _ => hframe.next? hnext
        exact (h.frames other hother).mono [_]
      · rw [hpast.choices]
        exact fun choice hchoice other hother => (h.choices choice hchoice other hother).mono [_]
      · intro id other hother htop
        rcases List.mem_cons.mp hother with hnew | hold
        · cases hnew
          rw [hknot]
          exact (hframe cursor hmem htop).mono [_]
        · exact (h.events id other hold htop).mono [_]
  | nested _ _ =>
      refine h.keep nofun (Stack.forall_mapTop h.frames fun top htop => ?_) h.choices
      exact (h.frames top (List.mem_of_head? htop)).pushContent _
  | @entered _ address location knot hlocate _ hplaced hturn _ =>
      refine h.keep (by simp) (hplaced.forall h.frames fun kind => ?_) ?_
      · exact walkedFrame_atLocation (Script.lands_of_locate hlocate) log _ kind
      · rw [hturn.choices]
        exact h.choices
  | refused hlocate _ hplaced hturn _ =>
      refine h.keep nofun (hplaced.forall h.frames fun kind => ?_) ?_
      · exact walkedFrame_atLocation (Script.lands_of_locate hlocate) log _ kind
      · rw [hturn.choices]
        exact h.choices
  | left =>
      refine h.keep nofun (fun frame hframe => ?_) h.choices
      exact h.frames frame (List.mem_of_mem_tail hframe)
  | offered hopens =>
      refine h.keep (by simp) h.frames fun choice hchoice => ?_
      rcases List.mem_append.mp hchoice with hold | hnew
      · exact h.choices choice hold
      · obtain rfl := List.mem_singleton.mp hnew
        obtain ⟨scopes, hresume⟩ := hopens.resume
        intro frame hframe
        obtain ⟨⟨resumed, scope⟩, hmem, rfl⟩ := List.mem_map.mp hframe
        obtain ⟨other, hother, hplace⟩ := samePlace_of_mem_resumePoint (hresume ▸ hmem)
        exact (h.frames other hother).samePlace hplace
  | halted => exact h.keep nofun nofun h.choices
  | withdrawn => exact h.keep nofun h.frames nofun
  | @made choice hmem =>
      refine h.keep (by simp) ?_ nofun
      have hresumed := h.choices choice hmem
      have hitems : ∀ frame ∈ (Stack.ofList (choice.resume.map (·.1))).items, _ := hresumed
      refine Stack.forall_mapTop hitems ?_
      intro top htop
      exact (hresumed top (List.mem_of_head? htop)).pushContent _

/-! ## Arrivals -/

theorem start_of_gatherStart {address : Address} {location : Location}
    (h : story.script.Lands address location) {index : Nat}
    (hindex : location.gatherStart = some index) : location.start = index := by
  cases h with
  | body _ => cases hindex
  | first _ _ _ => cases hindex
  | stitch _ _ => cases hindex
  | gather _ _ => exact Option.some.inj hindex

section Arrivals

variable {id : KnotId} {k : Knot} {g : Gather} (hk : story.script.knot? id = some k)
  (hplain : k.IsPlain g)

include hk hplain

/-- Control that lands at the place of a plain gather was sent to a gather. -/
theorem gatherStart_of_lands {address : Address} {location : Location}
    (h : story.script.Lands address location) (hknot : location.knot = id)
    (hstart : location.start = g.start) : location.gatherStart = some g.start := by
  have hoffset {l : Knot} (hl : story.script.knot? location.knot = some l) {stitch : Stitch}
      (hstitch : stitch ∈ l.stitches) : stitch.offset ≠ g.start := by
    rw [hknot, hk] at hl
    cases hl
    exact hplain.2 stitch hstitch
  cases h with
  | body _ =>
      unfold Gather.start at hstart
      cases hstart
  | first hl hstitches _ =>
      exact absurd hstart (hoffset hl (hstitches ▸ List.mem_cons_self))
  | stitch hl hstitch => exact absurd hstart (hoffset hl (List.mem_of_getElem? hstitch))
  | gather _ _ => exact congrArg some hstart

/-- A cursor that comes to the place of a plain gather, and was not put there, has walked over
the choices before. -/
theorem visits_eq_arrivesAt {log : List Event} {cursor : Cursor}
    (hwalked : cursor.topLevel = true → story.Walked log id cursor)
    (hevents : ∀ other, .reached id other ∈ log → other.topLevel = true →
      story.Walked log id other) :
    Event.visits id k g (.reached id cursor) = Event.arrivesAt id g log (.reached id cursor) := by
  have hchoice : g.start = g.choiceIndex + 1 := rfl
  rw [Bool.eq_iff_iff]
  simp only [Event.visits, Event.arrivesAt, Cursor.arrives, Bool.and_eq_true, decide_eq_true_eq,
    true_and, List.any_eq_true]
  constructor
  · rintro ⟨⟨htop, hcounted⟩, hgather⟩
    have hindex := (Knot.mem_of_gatherAt? hgather).2
    obtain ⟨address, location, hlands, hknot, hsame, hstart, hway⟩ := hwalked htop
    have hne : location.start ≠ g.start := by
      intro heq
      have hput := gatherStart_of_lands hk hplain hlands hknot heq
      rw [hsame, hput, hindex] at hcounted
      exact hcounted rfl
    have hreached := hway g.choiceIndex (by omega) (by omega)
    exact ⟨⟨htop, hindex.symm⟩, _, hreached, by simp [Event.walks, htop]⟩
  · rintro ⟨⟨htop, hindex⟩, event, hevent, hwalks⟩
    refine ⟨⟨htop, fun hcounted => ?_⟩, by rw [hindex]; exact hplain.1⟩
    cases event with
    | reached knot other =>
        simp only [Event.walks, Bool.and_eq_true, decide_eq_true_eq] at hwalks
        obtain ⟨⟨⟨⟨rfl, hother⟩, hat⟩, _⟩, hsame⟩ := hwalks
        obtain ⟨_, location, hlands, _, hput, hstart, _⟩ := hevents other hevent hother
        have hgather := start_of_gatherStart hlands (hput.symm.trans (hsame.trans hcounted))
        omega
    | entered _ _ | offered _ | made _ => cases hwalks

/-- The events that are taken for arrivals at a plain gather are the arrivals. -/
theorem arrivals_of_happens {log events : List Event} {s t : State} (h : story.Strolling log s)
    (hhappens : story.Happens s events t) :
    Event.arrivals id g (events ++ log) =
      Event.arrivals id g log + events.countP (Event.visits id k g) := by
  have hone (event : Event)
      (heq : Event.visits id k g event = Event.arrivesAt id g log event) :
      Event.arrivals id g (event :: log) =
        Event.arrivals id g log + [event].countP (Event.visits id k g) := by
    rw [Event.arrivals, List.countP_singleton, heq]
    cases Event.arrivesAt id g log event with
    | false => rfl
    | true => rfl
  cases hhappens with
  | @reached frame next cursor htop hnext =>
      refine hone _ ?_
      obtain ⟨hknot, _, _, hmem, _⟩ := Frame.of_next? hnext
      by_cases hid : next.knot = id
      · subst hid
        refine visits_eq_arrivesAt hk hplain ?_ (h.events next.knot)
        rw [hknot]
        exact h.frames frame (List.mem_of_head? htop) cursor hmem
      · simp [Event.visits, Event.arrivesAt, hid]
  | entered _ _ _ _ _ => exact hone _ rfl
  | offered _ => exact hone _ rfl
  | made _ => exact hone _ rfl
  | _ => rfl

theorem arrivals_of_trace {s t : State} {log new : List Event} (h : story.Strolling log s)
    (htrace : story.Trace s new t) :
    story.Strolling (new ++ log) t ∧ Event.arrivals id g (new ++ log) =
      Event.arrivals id g log + new.countP (Event.visits id k g) := by
  induction htrace with
  | refl => exact ⟨h, rfl⟩
  | next _ hhappens ih =>
      obtain ⟨hstrolling, harrivals⟩ := ih
      rw [List.append_assoc]
      refine ⟨hstrolling.happens hhappens, ?_⟩
      rw [arrivals_of_happens hk hplain hstrolling hhappens, harrivals, List.countP_append]
      omega

end Arrivals

/-- In every state that a story with sections of their own identities can come to, a gather was
visited as often as it was named or a cursor came to a place where it is the first gather to
start.  If no stitch starts there and no gather that comes before it, then that is as often as
control arrived at it: because it was named, or over the choices that it follows. -/
theorem gather_visits_of_reachable {s : State} (hunique : story.script.HasUniqueSections)
    {id : KnotId} {k : Knot} {g : Gather} (hk : story.script.knot? id = some k)
    (hg : g ∈ k.allGathers) (h : story.Reachable s) :
    (∃ log, story.History log s) ∧
      ∀ log, story.History log s →
        s.timesVisited g.id = log.countP (Event.visits id k g) ∧
        (k.IsPlain g → s.timesVisited g.id = Event.arrivals id g log) := by
  refine ⟨h.history, fun log hlog => ?_⟩
  have hvisits : s.timesVisited g.id = log.countP (Event.visits id k g) := by
    rw [timesVisited_of_trace hunique hk hg hlog.trace]
    exact Nat.zero_add _
  refine ⟨hvisits, fun hplain => ?_⟩
  have hseed : story.Strolling [] (.ofSeed story.config.seed) := ⟨nofun, nofun, nofun⟩
  have harrivals := (arrivals_of_trace hk hplain hseed hlog.trace).2
  rw [List.append_nil] at harrivals
  rw [hvisits, harrivals]
  exact (Nat.zero_add _).symm

/-- The gather of `crossing`. -/
def crossingGather : Gather :=
  { name := "meet", id := ⟨3⟩, level := 1, choiceIndex := 0 }

/-- A story with a gather behind a block of choices. -/
def crossing : Story where
  script :=
    { knots :=
        [{ name := "start", id := ⟨1⟩, parameters := []
           objects := [.choice ⟨2⟩ [⟨[.text "Go"], [], false, [], false, false⟩], .text "Here."]
           stitches := [], gathers := [crossingGather], isFunction := false }]
      sound := rfl }

/-- Control arrives at the gather over the choice, and once more because the host names it. -/
theorem gather_visits_of_crossing :
    ∃ s log, crossing.Reachable s ∧ crossing.History log s ∧ s.timesVisited ⟨3⟩ = 2 ∧
      Event.arrivals ⟨0⟩ crossingGather log = 2 := by
  have hrun : (crossing.start.toOption.map fun start =>
      let s := (crossing.perform (.continueMaximally 2)).after
        ((crossing.perform (.choose 0)).after ((crossing.perform .continueLine).after start))
      (s.timesVisited ⟨3⟩,
        ((crossing.perform (.choosePath "start.meet")).after s).timesVisited ⟨3⟩)) =
        some (1, 2) := by decide +kernel
  obtain ⟨start, hstart, hrun⟩ := exists_start hrun
  obtain ⟨_, htwice⟩ := Prod.mk.inj hrun
  have hoffered := (Reachable.start hstart).request .continueLine (Flow.leaves_after _ _)
  have hchosen := hoffered.request (.choose 0) (Flow.leaves_after _ _)
  have hread := hchosen.request (.continueMaximally 2) (Flow.leaves_after _ _)
  have hreach := hread.request (.choosePath "start.meet") (Flow.leaves_after _ _)
  have hknot : crossing.script.knot? ⟨0⟩ = some _ := rfl
  obtain ⟨⟨log, hlog⟩, hall⟩ := gather_visits_of_reachable (g := crossingGather)
    (by decide +kernel) hknot List.mem_cons_self hreach
  refine ⟨_, log, hreach, hlog, htwice, ?_⟩
  rw [← (hall log hlog).2 (by decide +kernel)]
  exact htwice

/-- A story whose knot has a gather at the end of its body, and a stitch right behind it. -/
def attic : Story where
  script :=
    { knots :=
        [{ name := "start", id := ⟨1⟩, parameters := []
           objects := [.divert { kind := .goto, target := some "hall.attic" }]
           stitches := [], gathers := [], isFunction := false },
         { name := "hall", id := ⟨2⟩, parameters := []
           objects := [.choice ⟨3⟩ [⟨[.text "Go"], [], false, [], false, false⟩], .text "Attic."]
           stitches := [{ name := "attic", id := ⟨4⟩, offset := 1, gathers := [] }]
           gathers := [{ name := "meet", id := ⟨5⟩, level := 1, choiceIndex := 0 }]
           isFunction := false }]
      sound := rfl }

/-- Control is sent to the stitch, and the first step there visits the gather of the body, though
no choice was ever offered and the gather was never named. -/
theorem gather_visits_of_attic :
    attic.script.HasUniqueSections ∧
      attic.script.locate (.stitch ⟨1⟩ 0) = .ok ⟨⟨1⟩, 1, 2, [⟨4⟩], none⟩ ∧
      ∃ s t, attic.Reachable s ∧ attic.step attic.callFunction s = .ok () t ∧
        s.currentKnot? = some ⟨1⟩ ∧
        (s.frames.items.map fun frame => frame.cursors.map fun cursor =>
          (cursor.index, cursor.stop)) = [[(1, 2)]] ∧
        s.timesVisited ⟨5⟩ = 0 ∧ t.timesVisited ⟨5⟩ = 1 ∧ t.choices.length = 0 ∧ t.turn = 0 := by
  refine ⟨by decide +kernel, by decide +kernel, ?_⟩
  have hrun : (attic.start.toOption.map fun start =>
      let s := (attic.step
        (attic.watchedFunction (fun _ => false) attic.config.callDepth)).after start
      let t := (attic.step attic.callFunction).after s
      (s.currentKnot?,
        s.frames.items.map fun frame => frame.cursors.map fun cursor => (cursor.index, cursor.stop),
        [s.timesVisited ⟨5⟩, t.timesVisited ⟨5⟩, t.choices.length, t.turn],
        ((attic.step attic.callFunction).answer? s).isSome)) =
        some (some ⟨1⟩, [[(1, 2)]], [0, 1, 0, 0], true) := by decide +kernel
  obtain ⟨start, hstart, hrun⟩ := exists_start hrun
  simp only [Prod.mk.injEq, List.cons.injEq, and_true] at hrun
  obtain ⟨hknot, hcursors, ⟨hbefore, hafter, hchoices, hturn⟩, hsome⟩ := hrun
  obtain ⟨_, hanswer⟩ := Option.isSome_iff_exists.mp hsome
  have hreach := (Reachable.start hstart).step (fun _ => false) (Flow.leaves_after _ _)
  exact ⟨_, _, hreach, Flow.of_answer?_eq_some hanswer, hknot, hcursors, hbefore, hafter,
    hchoices, hturn⟩

end Story

end Skein
