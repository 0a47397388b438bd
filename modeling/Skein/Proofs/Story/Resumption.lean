import Skein.Proofs.Story.Frames

set_option autoImplicit false

/-!
# Story: the flow that a choice goes on with

A choice goes on with the frames there were when it was offered, less those that run beside it: a
thread takes the place of the frame that spawned it, and is then what that frame was.  Going through
the frames from the outermost one, a thread replaces whatever was kept last, which may itself be a
thread that replaced another.  Said of the whole stack: what stays is the frames on which no thread
lies, and each has the kind of the nearest frame at or below it that is no thread.

Places are counted from the outermost frame, as depths are.
-/

namespace Skein

/-! ## Threads on their spawners -/

/-- Whether every thread says that it was spawned by the frame just below it, so that the outermost
frame is none.  Kinds are listed innermost first. -/
def isThreaded : List FrameKind → Bool
  | [] => true
  | .thread spawner :: below => spawner + 1 = below.length && isThreaded below
  | _ :: below => isThreaded below

theorem isThreaded_cons {kind : FrameKind} {below : List FrameKind} :
    isThreaded (kind :: below) = true ↔
      (∀ spawner, kind = .thread spawner → spawner + 1 = below.length) ∧
        isThreaded below = true := by
  cases kind with
  | thread spawner => simp [isThreaded]
  | root | tunnel _ | function _ => simp [isThreaded]

theorem isThreaded_iff {kinds : List FrameKind} :
    isThreaded kinds = true ↔
      ∀ place spawner, kinds.reverse[place]? = some (.thread spawner) →
        place ≠ 0 ∧ spawner = place - 1 := by
  induction kinds with
  | nil => simp [isThreaded]
  | cons kind below ih =>
      rw [isThreaded_cons, ih]
      constructor
      · rintro ⟨htop, hbelow⟩ place spawner hplace
        rcases getElem?_reverse_cons hplace with hplace | ⟨rfl, hkind⟩
        · exact hbelow place spawner hplace
        · have hspawner := htop spawner hkind.symm
          omega
      · intro h
        refine ⟨fun spawner hkind => ?_, fun place spawner hplace => ?_⟩
        · have hlast : (kind :: below).reverse[below.length]? = some (.thread spawner) := by
            simp [hkind]
          obtain ⟨hpositive, hspawner⟩ := h below.length spawner hlast
          omega
        · refine h place spawner ?_
          rw [List.reverse_cons, List.getElem?_append_left]
          · exact hplace
          · simpa using lt_of_getElem?_reverse hplace

/-! ## What stays of a stack -/

section Stacks

variable {top : Frame} {below : List Frame} {place : Nat}

/-- Whether the frame at a place is a thread. -/
def threadAt (frames : List Frame) (place : Nat) : Bool :=
  frames.reverse[place]?.any (·.kind.isThread)

/-- The places of the frames on which no thread lies, outermost first. -/
def openPlaces (frames : List Frame) : List Nat :=
  (List.range frames.length).filter fun place => !threadAt frames (place + 1)

/-- A kind is that of the nearest frame at or below a place that is no thread. -/
def NearestKind (frames : List Frame) (place : Nat) (kind : FrameKind) : Prop :=
  ∃ base owner, base ≤ place ∧ frames.reverse[base]? = some owner ∧ owner.kind = kind ∧
    kind.isThread = false ∧
    ∀ between, base < between → between ≤ place → threadAt frames between = true

theorem getElem?_reverse_below (h : place < below.length) :
    (top :: below).reverse[place]? = below.reverse[place]? := by
  rw [List.reverse_cons, List.getElem?_append_left (by simpa using h)]

theorem getElem?_reverse_top : (top :: below).reverse[below.length]? = some top := by
  rw [List.reverse_cons, List.getElem?_append_right (by simp)]
  simp

theorem threadAt_below (h : place < below.length) :
    threadAt (top :: below) place = threadAt below place := by
  rw [threadAt, getElem?_reverse_below h, threadAt]

theorem threadAt_top : threadAt (top :: below) below.length = top.kind.isThread := by
  rw [threadAt, getElem?_reverse_top]
  rfl

theorem threadAt_length (frames : List Frame) : threadAt frames frames.length = false := by
  rw [threadAt, List.getElem?_eq_none (by simp)]
  rfl

/-- The innermost frame stays, and if it is a thread the one below it does not. -/
theorem openPlaces_cons (top : Frame) (below : List Frame) :
    openPlaces (top :: below) =
      (if top.kind.isThread then (openPlaces below).dropLast else openPlaces below) ++
        [below.length] := by
  have htop : threadAt (top :: below) (below.length + 1) = false := threadAt_length (top :: below)
  unfold openPlaces
  rw [List.length_cons, List.range_succ, List.filter_append]
  congr 1
  · cases below with
    | nil => simp
    | cons next rest =>
        have hinner : (List.range rest.length).filter
              (fun place => !threadAt (top :: next :: rest) (place + 1)) =
            (List.range rest.length).filter fun place => !threadAt (next :: rest) (place + 1) := by
          refine List.filter_congr fun place hplace => ?_
          have hlt : place + 1 < (next :: rest).length := by
            simpa using List.mem_range.mp hplace
          rw [threadAt_below hlt]
        have hover : threadAt (top :: next :: rest) (rest.length + 1) = top.kind.isThread :=
          threadAt_top
        have hnone : threadAt (next :: rest) (rest.length + 1) = false :=
          threadAt_length (next :: rest)
        rw [List.length_cons, List.range_succ, List.filter_append, List.filter_append, hinner]
        cases hthread : top.kind.isThread with
        | true => simp [hover, hnone, hthread]
        | false => simp [hover, hnone, hthread]
  · simp [htop]

theorem NearestKind.cons {kind : FrameKind} (h : NearestKind below place kind)
    (hplace : place < below.length) : NearestKind (top :: below) place kind := by
  obtain ⟨base, owner, hbase, howner, hkind, hthread, hbetween⟩ := h
  refine ⟨base, owner, hbase, ?_, hkind, hthread, fun between hlow hhigh => ?_⟩
  · rw [getElem?_reverse_below (Nat.lt_of_le_of_lt hbase hplace)]
    exact howner
  · rw [threadAt_below (Nat.lt_of_le_of_lt hhigh hplace)]
    exact hbetween between hlow hhigh

theorem nearestKind_top (h : top.kind.isThread = false) :
    NearestKind (top :: below) below.length top.kind :=
  ⟨below.length, top, Nat.le_refl _, getElem?_reverse_top, rfl, h,
    fun _ hlow hhigh => absurd hlow (Nat.not_lt.mpr hhigh)⟩

/-- A thread has the kind of the frame it was spawned by. -/
theorem NearestKind.thread {kind : FrameKind} (h : NearestKind below place kind)
    (hplace : place + 1 = below.length) (htop : top.kind.isThread = true) :
    NearestKind (top :: below) below.length kind := by
  have hlt : place < below.length := by omega
  have hcons : NearestKind (top :: below) place kind := h.cons hlt
  obtain ⟨base, owner, hbase, howner, hkind, hthread, hbetween⟩ := hcons
  refine ⟨base, owner, by omega, howner, hkind, hthread, fun between hlow hhigh => ?_⟩
  rcases Nat.lt_or_ge between below.length with hinside | houtside
  · exact hbetween between hlow (by omega)
  · obtain rfl : between = below.length := Nat.le_antisymm hhigh houtside
    rw [threadAt_top]
    exact htop

end Stacks

/-! ## Going through the frames -/

namespace Kept

/-- The innermost frame comes last, at the depth after all others and with its own scope. -/
theorem pair_concat (depth : Nat) (frame : Frame) (scope : Scope) {frames : List Frame}
    {scopes : List Scope} (h : scopes.length = frames.length) :
    pair depth (frames ++ [frame]) (scopes ++ [scope]) =
      pair depth frames scopes ++ [⟨depth + frames.length, frame, scope⟩] := by
  induction frames generalizing depth scopes with
  | nil =>
      obtain rfl := List.eq_nil_of_length_eq_zero h
      rfl
  | cons first rest ih =>
      cases scopes with
      | nil => cases h
      | cons first' scopes =>
          rw [List.cons_append, List.cons_append, pair, pair, ih (depth + 1) (Nat.succ.inj h),
            List.length_cons, Nat.add_right_comm]
          rfl

/-- What is kept of some frames, innermost first. -/
def ofFrames (frames : List Frame) (scopes : List Scope) : List Kept :=
  (pair 0 frames.reverse scopes.reverse).foldl add []

theorem ofFrames_cons (top : Frame) (scope : Scope) {below : List Frame} {scopes : List Scope}
    (h : scopes.length = below.length) :
    ofFrames (top :: below) (scope :: scopes) =
      add (ofFrames below scopes) ⟨below.length, top, scope⟩ := by
  have hlength : scopes.reverse.length = below.reverse.length := by simpa using h
  rw [ofFrames, List.reverse_cons, List.reverse_cons, pair_concat 0 top scope hlength,
    List.foldl_append, List.length_reverse, Nat.zero_add]
  rfl

theorem add_of_not_thread {kept : List Kept} {next : Kept}
    (h : next.frame.kind.isThread = false) : add kept next = next :: kept := by
  unfold add
  split
  · next hkind =>
      rw [hkind] at h
      cases h
  · rfl

/-- A thread takes the place of the frame kept last if that one spawned it. -/
theorem add_of_thread {kept : List Kept} {next spawner : Kept}
    (h : next.frame.kind = .thread spawner.depth) :
    add (spawner :: kept) next =
      { next with frame := { next.frame with kind := spawner.frame.kind } } :: kept := by
  unfold add
  split
  · next hkind =>
      obtain rfl := FrameKind.thread.inj (hkind.symm.trans h)
      rw [List.dropWhile_cons_of_neg (by simp)]
  · next hother => exact absurd h (hother spawner.depth)

/-- A frame that is kept stands at its place, with its scope, and has the kind of the nearest frame
that is no thread. -/
structure Stays (frames : List Frame) (scopes : List Scope) (kept : Kept) : Prop where
  placed : ∃ frame, frames.reverse[kept.depth]? = some frame ∧ kept.frame.SamePlace frame
  scope : scopes.reverse[kept.depth]? = some kept.scope
  kind : NearestKind frames kept.depth kept.frame.kind

theorem Stays.lt {frames : List Frame} {scopes : List Scope} {kept : Kept}
    (h : kept.Stays frames scopes) : kept.depth < frames.length := by
  obtain ⟨frame, hframe, _⟩ := h.placed
  simpa using (List.getElem?_eq_some_iff.mp hframe).1

/-- What stays of a stack stays when a frame is put on it, if it is kept still. -/
theorem Stays.cons {top : Frame} {scope : Scope} {below : List Frame} {scopes : List Scope}
    {kept : Kept} (h : kept.Stays below scopes) (hlength : scopes.length = below.length) :
    kept.Stays (top :: below) (scope :: scopes) where
  placed := by
    obtain ⟨frame, hframe, hplace⟩ := h.placed
    exact ⟨frame, (getElem?_reverse_below h.lt).trans hframe, hplace⟩
  scope := by
    have hlt := h.lt
    rw [List.reverse_cons, List.getElem?_append_left (by simpa [hlength] using hlt)]
    exact h.scope
  kind := h.kind.cons h.lt

/-- The innermost frame stays, whatever its kind becomes. -/
theorem stays_top {top : Frame} {scope : Scope} {below : List Frame} {scopes : List Scope}
    {kind : FrameKind} (hkind : NearestKind (top :: below) below.length kind)
    (hlength : scopes.length = below.length) :
    Stays (top :: below) (scope :: scopes) ⟨below.length, { top with kind := kind }, scope⟩ where
  placed := ⟨top, getElem?_reverse_top, rfl, rfl⟩
  scope := by
    rw [List.reverse_cons, List.getElem?_append_right (by simp [hlength])]
    simp [hlength]
  kind := hkind

/-- What is kept is the frames on which no thread lies, in order, and as many as there are frames
that are no threads. -/
structure Open (frames : List Frame) (scopes : List Scope) (kept : List Kept) : Prop where
  places : (kept.map (·.depth)).reverse = openPlaces frames
  stays : ∀ one ∈ kept, one.Stays frames scopes
  length_eq : kept.length = (frames.filter fun frame => !frame.kind.isThread).length

section Adding

variable {top : Frame} {scope : Scope} {below : List Frame} {scopes : List Scope}
  {kept : List Kept}

/-- The frame kept last is the innermost one. -/
theorem Open.exists_last (h : Open below scopes kept) (hbelow : below ≠ []) :
    ∃ last rest, kept = last :: rest ∧ last.depth + 1 = below.length := by
  obtain ⟨next, others, rfl⟩ := List.exists_cons_of_ne_nil hbelow
  have hplaces := h.places
  rw [openPlaces_cons, List.reverse_eq_iff, List.reverse_concat] at hplaces
  obtain ⟨last, rest, rfl, hdepth, _⟩ := List.map_eq_cons_iff.mp hplaces
  exact ⟨last, rest, rfl, congrArg (· + 1) hdepth⟩

theorem Open.add_other (h : Open below scopes kept) (hlength : scopes.length = below.length)
    (htop : top.kind.isThread = false) :
    Open (top :: below) (scope :: scopes) (add kept ⟨below.length, top, scope⟩) := by
  rw [add_of_not_thread htop]
  refine ⟨?_, fun one hone => ?_, ?_⟩
  · rw [List.map_cons, List.reverse_cons, h.places, openPlaces_cons, htop]
    rfl
  · rcases List.mem_cons.mp hone with rfl | hone
    · exact stays_top (nearestKind_top htop) hlength
    · exact (h.stays one hone).cons hlength
  · simp [h.length_eq, htop]

theorem Open.add_thread (h : Open below scopes kept) (hlength : scopes.length = below.length)
    {spawner : Nat} (htop : top.kind = .thread spawner) (hspawner : spawner + 1 = below.length) :
    Open (top :: below) (scope :: scopes) (add kept ⟨below.length, top, scope⟩) := by
  have hthread : top.kind.isThread = true := by
    rw [htop]
    rfl
  have hbelow : below ≠ [] := by
    rintro rfl
    cases hspawner
  obtain ⟨last, rest, rfl, hdepth⟩ := h.exists_last hbelow
  obtain rfl : spawner = last.depth := by omega
  rw [add_of_thread htop]
  refine ⟨?_, fun one hone => ?_, ?_⟩
  · rw [openPlaces_cons, hthread, if_pos rfl, ← h.places, List.map_cons, List.map_cons,
      List.reverse_cons, List.reverse_cons, List.dropLast_concat]
  · rcases List.mem_cons.mp hone with rfl | hone
    · exact stays_top ((h.stays last List.mem_cons_self).kind.thread hdepth hthread) hlength
    · exact (h.stays one (List.mem_cons_of_mem _ hone)).cons hlength
  · rw [List.filter_cons_of_neg (by simp [hthread]), ← h.length_eq]
    rfl

end Adding

theorem open_ofFrames {frames : List Frame} {scopes : List Scope}
    (h : isThreaded (frames.map (·.kind)) = true) (hlength : scopes.length = frames.length) :
    Open frames scopes (ofFrames frames scopes) := by
  -- The frames are gone through from the outermost one, so the innermost one is added last, to what
  -- is kept of those below it.
  induction frames generalizing scopes with
  | nil =>
      obtain rfl := List.eq_nil_of_length_eq_zero hlength
      exact ⟨rfl, by simp [ofFrames, pair], rfl⟩
  | cons top below ih =>
      cases scopes with
      | nil => cases hlength
      | cons scope scopes =>
          have hbelow : scopes.length = below.length := Nat.succ.inj hlength
          obtain ⟨htop, hthreaded⟩ := isThreaded_cons.mp h
          have hkept := ih hthreaded hbelow
          rw [ofFrames_cons top scope hbelow]
          cases hkind : top.kind with
          | thread spawner =>
              refine hkept.add_thread hbelow hkind ?_
              simpa using htop spawner hkind
          | root | tunnel _ | function _ =>
              refine hkept.add_other hbelow ?_
              rw [hkind]
              rfl

/-- Counted from the outermost frame, each frame is linked to the one before it. -/
theorem getElem?_relinked {kept : List Kept} {position : Nat} {one : Kept}
    (h : kept.reverse[position]? = some one) :
    (relinked kept).reverse[position]? =
      some ({ one.frame with kind := one.frame.kind.relink (position - 1) }, one.scope) := by
  induction kept with
  | nil => simp at h
  | cons top below ih =>
      rw [relinked, List.reverse_cons]
      rw [List.reverse_cons] at h
      rcases Nat.lt_or_ge position below.length with hlt | hge
      · rw [List.getElem?_append_left (by simpa [length_relinked] using hlt)]
        rw [List.getElem?_append_left (by simpa using hlt)] at h
        exact ih h
      · rw [List.getElem?_append_right (by simpa using hge), List.length_reverse] at h
        obtain ⟨hzero, rfl⟩ : position - below.length = 0 ∧ top = one := by
          rw [List.getElem?_singleton] at h
          split at h
          · next hzero => exact ⟨hzero, Option.some.inj h⟩
          · cases h
        obtain rfl : position = below.length := by omega
        rw [List.getElem?_append_right (by simp [length_relinked]), List.length_reverse,
          length_relinked, Nat.sub_self]
        rfl

end Kept

theorem FrameKind.isThread_relink (kind : FrameKind) (depth : Nat) :
    (kind.relink depth).isThread = kind.isThread := by
  cases kind <;> rfl

/-- Of frames among which every thread was spawned by the frame below it, with a scope for each, a
choice goes on with those on which no thread lies: in order, each with its own scope and where it
stood, with the kind of the nearest frame at or below it that is no thread, and entered from the
frame before it.  So none of them is a thread, and there are as many as there were other frames. -/
theorem resumePoint_places {frames : List Frame} {scopes : List Scope}
    (hthreads : ∀ place spawner, (frames.map (·.kind)).reverse[place]? = some (.thread spawner) →
      place ≠ 0 ∧ spawner = place - 1)
    (hlength : scopes.length = frames.length) :
    (resumePoint frames scopes).length = (openPlaces frames).length ∧
      (∀ position place, (openPlaces frames)[position]? = some place →
        ∃ frame scope kind, frames.reverse[place]? = some frame ∧
          scopes.reverse[place]? = some scope ∧ NearestKind frames place kind ∧
          (resumePoint frames scopes).reverse[position]? =
            some ({ frame with kind := kind.relink (position - 1) }, scope)) ∧
      (∀ frame scope, (frame, scope) ∈ resumePoint frames scopes →
        frame.kind.isThread = false) ∧
      (resumePoint frames scopes).length =
        (frames.filter fun frame => !frame.kind.isThread).length := by
  have hopen := Kept.open_ofFrames (isThreaded_iff.mpr hthreads) hlength
  have hresume : resumePoint frames scopes = Kept.relinked (Kept.ofFrames frames scopes) := rfl
  have hcount : (resumePoint frames scopes).length = (openPlaces frames).length := by
    rw [hresume, Kept.length_relinked, ← hopen.places, List.length_reverse, List.length_map]
  have hat (position place : Nat) (hplace : (openPlaces frames)[position]? = some place) :
      ∃ frame scope kind, frames.reverse[place]? = some frame ∧
        scopes.reverse[place]? = some scope ∧ NearestKind frames place kind ∧
        (resumePoint frames scopes).reverse[position]? =
          some ({ frame with kind := kind.relink (position - 1) }, scope) := by
    rw [← hopen.places, ← List.map_reverse, List.getElem?_map, Option.map_eq_some_iff] at hplace
    obtain ⟨one, hone, rfl⟩ := hplace
    obtain ⟨⟨frame, hframe, hplace⟩, hscope, hkind⟩ :=
      hopen.stays one (List.mem_reverse.mp (List.mem_of_getElem? hone))
    refine ⟨frame, one.scope, one.frame.kind, hframe, hscope, hkind, ?_⟩
    rw [hresume, Kept.getElem?_relinked hone, ← hplace.knot, ← hplace.cursors]
  refine ⟨hcount, hat, fun frame scope hmem => ?_, ?_⟩
  · obtain ⟨position, hposition⟩ := List.mem_iff_getElem?.mp (List.mem_reverse.mpr hmem)
    have hlt := (List.getElem?_eq_some_iff.mp hposition).1
    rw [List.length_reverse, hcount] at hlt
    obtain ⟨_, _, kind, _, _, ⟨_, _, _, _, _, hthread, _⟩, hresumed⟩ :=
      hat position _ (List.getElem?_eq_getElem hlt)
    obtain ⟨rfl, _⟩ := Prod.mk.inj (Option.some.inj (hposition.symm.trans hresumed))
    rw [FrameKind.isThread_relink]
    exact hthread
  · rw [hresume, Kept.length_relinked, hopen.length_eq]

/-- A frame in a knot, with nothing to run. -/
def idleFrame (kind : FrameKind) (knot : Nat) : Frame :=
  { kind := kind, knot := ⟨knot⟩, cursors := [] }

/-- A main flow with a thread, which enters a tunnel; the tunnel has a thread, which has another
one; and that one calls a function. -/
def braid : List Frame :=
  [idleFrame (.function 4) 5, idleFrame (.thread 3) 4, idleFrame (.thread 2) 3,
    idleFrame (.tunnel 1) 2, idleFrame (.thread 0) 1, idleFrame .root 0]

/-- Scopes for the frames of `braid`, which say where they stand. -/
def braidScopes : List Scope :=
  [5, 4, 3, 2, 1, 0].map fun place => { temporaries := ⟨[("place", .int place)]⟩ }

/-- The second thread of the tunnel is the tunnel, entered from the thread of the main flow. -/
theorem resumePoint_places_braid :
    openPlaces braid = [1, 4, 5] ∧ (resumePoint braid braidScopes).length = 3 ∧
      ∃ (frame : Frame) (scope : Scope) (kind : FrameKind), frame.knot = ⟨4⟩ ∧
        scope.temporaries.get? "place" = some (.int 4) ∧ NearestKind braid 4 kind ∧
        kind.relink 0 = .tunnel 0 ∧ (resumePoint braid braidScopes).reverse[1]? =
          some ({ frame with kind := kind.relink 0 }, scope) := by
  have hopen : openPlaces braid = [1, 4, 5] := by decide
  obtain ⟨_, hat, _, hcount⟩ := @resumePoint_places braid braidScopes
    (isThreaded_iff.mp (by decide)) rfl
  obtain ⟨frame, scope, kind, hframe, hscope, hkind, hresumed⟩ := hat 1 4 (by rw [hopen]; rfl)
  have hkinds : ((resumePoint braid braidScopes).reverse[1]?.map fun one => one.1.kind) =
      some (.tunnel 0) := by decide
  obtain rfl := Option.some.inj hframe
  obtain rfl := Option.some.inj hscope
  refine ⟨hopen, hcount, _, _, kind, rfl, rfl, hkind, ?_, hresumed⟩
  rw [hresumed] at hkinds
  exact Option.some.inj hkinds

end Skein
