import Skein.Story.Turn

set_option autoImplicit false

/-!
# Story: stacks of frames

How the kinds of frames can lie on one another.  The main flow is outermost; every other
frame was entered from the frame just below it and says so; and above a function there are
only functions.  The frames that a choice goes on with are fewer kinds still: the main flow
and tunnels.  Kinds are listed innermost first, as frames are.
-/

namespace Skein

/-- The depth that a frame was entered from; the main flow was entered from nowhere. -/
def FrameKind.enteredFrom? : FrameKind → Option Nat
  | .root => none
  | .tunnel depth => some depth
  | .function depth => some depth
  | .thread depth => some depth

/-- Whether kinds of frames can lie on one another. -/
def isStacked : List FrameKind → Bool
  | [] => true
  | [kind] => kind = .root
  | kind :: below :: rest =>
    kind.enteredFrom? = some rest.length && (!below.isFunction || kind.isFunction) &&
      isStacked (below :: rest)

/-- Whether kinds of frames are those that a choice goes on with. -/
def isResumable : List FrameKind → Bool
  | [] => false
  | [kind] => kind = .root
  | kind :: below :: rest => kind = .tunnel rest.length && isResumable (below :: rest)

/-! ## Kinds and their depths -/

theorem isStacked_cons {kind below : FrameKind} {rest : List FrameKind} :
    isStacked (kind :: below :: rest) = true ↔
      kind.enteredFrom? = some rest.length ∧ (below.isFunction = true → kind.isFunction = true) ∧
        isStacked (below :: rest) = true := by
  rw [isStacked, Bool.and_eq_true, Bool.and_eq_true, decide_eq_true_eq, and_assoc]
  cases below.isFunction <;> simp

theorem isStacked_tail {kind : FrameKind} {rest : List FrameKind}
    (h : isStacked (kind :: rest) = true) : isStacked rest = true := by
  cases rest with
  | nil => rfl
  | cons below rest => exact (isStacked_cons.mp h).2.2

/-- A frame that was entered from the innermost one can be put on it. -/
theorem isStacked_push {kind : FrameKind} {rest : List FrameKind} (hrest : rest ≠ [])
    (hstacked : isStacked rest = true) (hfrom : kind.enteredFrom? = some (rest.length - 1))
    (hfunction : ∀ below ∈ rest.head?, below.isFunction = true → kind.isFunction = true) :
    isStacked (kind :: rest) = true := by
  cases rest with
  | nil => exact absurd rfl hrest
  | cons below rest => exact isStacked_cons.mpr ⟨hfrom, hfunction below rfl, hstacked⟩

theorem isStacked_of_isResumable {kinds : List FrameKind} (h : isResumable kinds = true) :
    isStacked kinds = true := by
  induction kinds with
  | nil => rfl
  | cons kind rest ih =>
      cases rest with
      | nil => exact h
      | cons below rest =>
          rw [isResumable, Bool.and_eq_true, decide_eq_true_eq] at h
          refine isStacked_cons.mpr ⟨by rw [h.1]; rfl, ?_, ih h.2⟩
          intro hbelow
          cases rest with
          | nil =>
              have hroot : below = .root := by simpa [isResumable] using h.2
              rw [hroot] at hbelow
              cases hbelow
          | cons next rest =>
              have htunnel := h.2
              rw [isResumable, Bool.and_eq_true, decide_eq_true_eq] at htunnel
              rw [htunnel.1] at hbelow
              cases hbelow

/-- Above a function there are only functions, so where the innermost frame is none there
is none at all. -/
theorem isFunction_of_isStacked {kind : FrameKind} {rest : List FrameKind}
    (h : isStacked (kind :: rest) = true) (hkind : kind.isFunction = false) :
    ∀ other ∈ kind :: rest, other.isFunction = false := by
  induction rest generalizing kind with
  | nil =>
      intro other hother
      obtain rfl := List.mem_singleton.mp hother
      exact hkind
  | cons below rest ih =>
      obtain ⟨_, hfunction, hbelow⟩ := isStacked_cons.mp h
      have hnone : below.isFunction = false := by
        cases hb : below.isFunction with
        | false => rfl
        | true =>
            rw [hfunction hb] at hkind
            cases hkind
      intro other hother
      rcases List.mem_cons.mp hother with rfl | hother
      · exact hkind
      · exact ih hbelow hnone other hother

/-! ## Places from the outermost frame -/

/-- Counted from the outermost frame, the innermost one comes last. -/
theorem getElem?_reverse_cons {top kind : FrameKind} {rest : List FrameKind} {place : Nat}
    (h : (top :: rest).reverse[place]? = some kind) :
    rest.reverse[place]? = some kind ∨ place = rest.length ∧ kind = top := by
  rw [List.reverse_cons] at h
  rcases Nat.lt_or_ge place rest.length with hlt | hge
  · rw [List.getElem?_append_left (by simpa using hlt)] at h
    exact .inl h
  · rw [List.getElem?_append_right (by simpa using hge), List.length_reverse,
      List.getElem?_singleton] at h
    split at h
    · cases h
      exact .inr ⟨by omega, rfl⟩
    · cases h

theorem lt_of_getElem?_reverse {kinds : List FrameKind} {place : Nat} {kind : FrameKind}
    (h : kinds.reverse[place]? = some kind) : place < kinds.length := by
  have hlt := (List.getElem?_eq_some_iff.mp h).1
  rwa [List.length_reverse] at hlt

/-- The outermost frame is the main flow, and the frame at every other place was entered
from the place before. -/
theorem enteredFrom?_of_isStacked {kinds : List FrameKind} (h : isStacked kinds = true)
    {place : Nat} {kind : FrameKind} (hplace : kinds.reverse[place]? = some kind) :
    (place = 0 → kind = .root) ∧ (place ≠ 0 → kind.enteredFrom? = some (place - 1)) := by
  induction kinds with
  | nil => simp at hplace
  | cons top rest ih =>
      rcases getElem?_reverse_cons hplace with hplace | ⟨rfl, rfl⟩
      · exact ih (isStacked_tail h) hplace
      · cases rest with
        | nil => simpa [isStacked] using h
        | cons below rest => simp [(isStacked_cons.mp h).1]

/-- Every frame above a function is a function. -/
theorem isFunction_above {kinds : List FrameKind} (h : isStacked kinds = true)
    {low high : Nat} {lower upper : FrameKind} (hlt : low < high)
    (hlow : kinds.reverse[low]? = some lower) (hhigh : kinds.reverse[high]? = some upper)
    (hfunction : lower.isFunction = true) : upper.isFunction = true := by
  induction kinds with
  | nil => simp at hlow
  | cons top rest ih =>
      have hbound := lt_of_getElem?_reverse hhigh
      rcases getElem?_reverse_cons hlow with hbelow | ⟨rfl, _⟩
      · rcases getElem?_reverse_cons hhigh with habove | ⟨_, rfl⟩
        · exact ih (isStacked_tail h) hbelow habove
        · cases hupper : upper.isFunction with
          | true => rfl
          | false =>
              have hmem : lower ∈ upper :: rest :=
                List.mem_reverse.mp (List.mem_of_getElem? hlow)
              rw [isFunction_of_isStacked h hupper lower hmem] at hfunction
              cases hfunction
      · rw [List.length_cons] at hbound
        omega

/-- The outermost frame of a choice is the main flow, and every other is a tunnel entered
from the place before. -/
theorem eq_tunnel_of_isResumable {kinds : List FrameKind} (h : isResumable kinds = true)
    {place : Nat} {kind : FrameKind} (hplace : kinds.reverse[place]? = some kind) :
    kind = if place = 0 then .root else .tunnel (place - 1) := by
  induction kinds with
  | nil => simp at hplace
  | cons top rest ih =>
      cases rest with
      | nil =>
          rcases getElem?_reverse_cons hplace with hplace | ⟨rfl, rfl⟩
          · simp at hplace
          · simpa [isResumable] using h
      | cons below rest =>
          rw [isResumable, Bool.and_eq_true, decide_eq_true_eq] at h
          rcases getElem?_reverse_cons hplace with hplace | ⟨rfl, rfl⟩
          · exact ih h.2 hplace
          · simp [h.1]

/-! ## Going on from a choice -/

/-- Two frames stand at the same place of the same knot. -/
structure Frame.SamePlace (frame other : Frame) : Prop where
  knot : frame.knot = other.knot
  cursors : frame.cursors = other.cursors

theorem Frame.SamePlace.trans {first second third : Frame} (h : first.SamePlace second)
    (h' : second.SamePlace third) : first.SamePlace third :=
  ⟨h.knot.trans h'.knot, h.cursors.trans h'.cursors⟩

/-- Whether kinds of frames are the main flow with tunnels on it, whatever they say about
where they were entered from. -/
def isTunnelled : List FrameKind → Bool
  | [] => false
  | [kind] => kind = .root
  | kind :: below :: rest => kind.isTunnel && isTunnelled (below :: rest)

namespace Kept

theorem length_relinked (kept : List Kept) : (relinked kept).length = kept.length := by
  induction kept with
  | nil => rfl
  | cons top below ih => rw [relinked, List.length_cons, List.length_cons, ih]

/-- Counting depths anew sets right where tunnels were entered from. -/
theorem isResumable_relinked {kept : List Kept}
    (h : isTunnelled (kept.map (·.frame.kind)) = true) :
    isResumable ((relinked kept).map (·.1.kind)) = true := by
  induction kept with
  | nil => cases h
  | cons top below ih =>
      cases below with
      | nil =>
          have hroot : top.frame.kind = .root := by simpa [isTunnelled] using h
          simp [relinked, isResumable, hroot, FrameKind.relink]
      | cons next rest =>
          simp only [List.map_cons, isTunnelled, Bool.and_eq_true] at h
          have hbelow := ih h.2
          simp only [relinked, List.map_cons] at hbelow ⊢
          rw [isResumable, Bool.and_eq_true, decide_eq_true_eq]
          refine ⟨?_, hbelow⟩
          rw [List.length_map, length_relinked, List.length_cons, Nat.add_sub_cancel]
          cases hkind : top.frame.kind with
          | tunnel depth => rfl
          | root | function _ | thread _ =>
              rw [hkind] at h
              cases h.1

/-- One more frame is kept: a tunnel on top of those kept so far, a thread in place of the
one it was spawned from, which is the one kept last. -/
theorem isTunnelled_add {kept : List Kept} {next : Kept} {top : Kept} {rest : List Kept}
    (hkept : kept = top :: rest) (h : isTunnelled (kept.map (·.frame.kind)) = true)
    (hfrom : next.frame.kind.enteredFrom? = some top.depth)
    (hfunction : next.frame.kind.isFunction = false) :
    isTunnelled ((add kept next).map (·.frame.kind)) = true := by
  subst hkept
  unfold add
  cases hkind : next.frame.kind with
  | root =>
      rw [hkind] at hfrom
      cases hfrom
  | function _ =>
      rw [hkind] at hfunction
      cases hfunction
  | tunnel depth =>
      simp only [List.map_cons, isTunnelled, hkind, Bool.and_eq_true] at h ⊢
      exact ⟨rfl, h⟩
  | thread depth =>
      rw [hkind] at hfrom
      cases hfrom
      simpa using h

/-- The frame kept last is where it was, at the depth it had, and no other is new. -/
theorem add_eq_cons (kept : List Kept) (next : Kept) :
    ∃ top rest, add kept next = top :: rest ∧ top.depth = next.depth ∧
      top.frame.SamePlace next.frame ∧ ∀ other ∈ rest, other ∈ kept := by
  unfold add
  split
  · split
    · exact ⟨_, _, rfl, rfl, ⟨rfl, rfl⟩, fun _ h => h⟩
    · next spawner below hdrop =>
        refine ⟨_, _, rfl, rfl, ⟨rfl, rfl⟩, fun other hother => ?_⟩
        have hmem : other ∈ spawner :: below := List.mem_cons_of_mem _ hother
        rw [← hdrop] at hmem
        exact (List.dropWhile_sublist _).subset hmem
  · exact ⟨_, _, rfl, rfl, ⟨rfl, rfl⟩, fun _ h => h⟩

/-- The innermost frame comes last, at the depth after all others. -/
theorem pair_append_singleton (depth : Nat) (frames : List Frame) (frame : Frame)
    (scopes : List Scope) :
    ∃ scope, pair depth (frames ++ [frame]) scopes =
      pair depth frames scopes ++ [⟨depth + frames.length, frame, scope⟩] := by
  induction frames generalizing depth scopes with
  | nil => cases scopes with
    | nil => exact ⟨_, rfl⟩
    | cons scope scopes => exact ⟨_, rfl⟩
  | cons first rest ih =>
      cases scopes with
      | nil =>
          obtain ⟨scope, hrest⟩ := ih (depth + 1) []
          refine ⟨scope, ?_⟩
          rw [List.cons_append, pair, pair, hrest, List.length_cons, Nat.add_right_comm]
          rfl
      | cons first' scopes =>
          obtain ⟨scope, hrest⟩ := ih (depth + 1) scopes
          refine ⟨scope, ?_⟩
          rw [List.cons_append, pair, pair, hrest, List.length_cons, Nat.add_right_comm]
          rfl

/-! ### Places of the frames that are kept -/

theorem frame_mem_of_pair {depth : Nat} {frames : List Frame} {scopes : List Scope} {kept : Kept}
    (h : kept ∈ pair depth frames scopes) : kept.frame ∈ frames := by
  induction frames generalizing depth scopes with
  | nil => cases h
  | cons frame rest ih =>
      cases scopes with
      | nil =>
          rcases List.mem_cons.mp h with rfl | h
          · exact List.mem_cons_self
          · exact List.mem_cons_of_mem _ (ih h)
      | cons scope scopes =>
          rcases List.mem_cons.mp h with rfl | h
          · exact List.mem_cons_self
          · exact List.mem_cons_of_mem _ (ih h)

theorem samePlace_of_mem_relinked {kept : List Kept} {frame : Frame} {scope : Scope}
    (h : (frame, scope) ∈ relinked kept) : ∃ other ∈ kept, frame.SamePlace other.frame := by
  induction kept with
  | nil => cases h
  | cons top rest ih =>
      rcases List.mem_cons.mp h with h | h
      · obtain ⟨rfl, rfl⟩ := Prod.mk.inj h
        exact ⟨top, List.mem_cons_self, rfl, rfl⟩
      · obtain ⟨other, hother, hplace⟩ := ih h
        exact ⟨other, List.mem_cons_of_mem _ hother, hplace⟩

theorem samePlace_of_mem_foldl {next : List Kept} {kept : List Kept} {found : Kept}
    (h : found ∈ next.foldl add kept) :
    ∃ other, (other ∈ kept ∨ other ∈ next) ∧ found.frame.SamePlace other.frame := by
  induction next generalizing kept with
  | nil => exact ⟨found, .inl h, rfl, rfl⟩
  | cons first rest ih =>
      obtain ⟨other, hother, hplace⟩ := ih h
      rcases hother with hother | hother
      · obtain ⟨top, below, hadd, _, htop, hbelow⟩ := add_eq_cons kept first
        rw [hadd] at hother
        rcases List.mem_cons.mp hother with rfl | hother
        · exact ⟨first, .inr List.mem_cons_self, hplace.trans htop⟩
        · exact ⟨other, .inl (hbelow other hother), hplace⟩
      · exact ⟨other, .inr (List.mem_cons_of_mem _ hother), hplace⟩

end Kept

/-- The frames that a choice goes on with stand where frames stood when it was offered. -/
theorem samePlace_of_mem_resumePoint {frames : List Frame} {scopes : List Scope} {frame : Frame}
    {scope : Scope} (h : (frame, scope) ∈ resumePoint frames scopes) :
    ∃ other ∈ frames, frame.SamePlace other := by
  obtain ⟨kept, hkept, hplace⟩ := Kept.samePlace_of_mem_relinked h
  obtain ⟨other, hother, hplace'⟩ := Kept.samePlace_of_mem_foldl hkept
  rcases hother with hother | hother
  · cases hother
  · exact ⟨other.frame, List.mem_reverse.mp (Kept.frame_mem_of_pair hother), hplace.trans hplace'⟩

/-- The innermost frame that a choice goes on with is the one it was offered in. -/
theorem resumePoint_cons (top : Frame) (below : List Frame) (scopes : List Scope) :
    ∃ frame scope rest, resumePoint (top :: below) scopes = (frame, scope) :: rest ∧
      frame.SamePlace top := by
  unfold resumePoint
  obtain ⟨scope, hpair⟩ := Kept.pair_append_singleton 0 below.reverse top scopes.reverse
  rw [List.reverse_cons, hpair, List.foldl_append, List.foldl_cons, List.foldl_nil]
  obtain ⟨kept, rest, hadd, _, hplace, _⟩ := Kept.add_eq_cons
    ((Kept.pair 0 below.reverse scopes.reverse).foldl Kept.add [])
    ⟨0 + below.reverse.length, top, scope⟩
  rw [hadd]
  exact ⟨_, _, _, rfl, hplace.knot, hplace.cursors⟩

/-- From a flow outside of functions, a choice goes on with the main flow and tunnels. -/
theorem isResumable_resumePoint {frames : List Frame} {scopes : List Scope}
    (hframes : frames ≠ []) (hstacked : isStacked (frames.map (·.kind)) = true)
    (hfunction : ∀ frame ∈ frames, frame.kind.isFunction = false) :
    isResumable ((resumePoint frames scopes).map (·.1.kind)) = true := by
  refine Kept.isResumable_relinked ?_
  generalize scopes.reverse = outermost
  -- The frame kept last is the innermost one so far, at the depth it had.
  suffices hkept : ∃ top rest,
      (Kept.pair 0 frames.reverse outermost).foldl Kept.add [] = top :: rest ∧
        top.depth = frames.length - 1 ∧
        isTunnelled ((top :: rest).map (·.frame.kind)) = true by
    obtain ⟨top, rest, hfold, _, htunnelled⟩ := hkept
    rw [hfold]
    exact htunnelled
  induction frames with
  | nil => exact absurd rfl hframes
  | cons frame below ih =>
      obtain ⟨scope, hpair⟩ := Kept.pair_append_singleton 0 below.reverse frame outermost
      rw [List.reverse_cons, hpair, List.foldl_append, List.foldl_cons, List.foldl_nil,
        List.length_reverse, Nat.zero_add]
      obtain ⟨top, rest, hadd, hdepth, _⟩ := Kept.add_eq_cons
        ((Kept.pair 0 below.reverse outermost).foldl Kept.add []) ⟨below.length, frame, scope⟩
      refine ⟨top, rest, hadd, by simpa using hdepth, ?_⟩
      rw [← hadd]
      cases below with
      | nil =>
          have hroot : frame.kind = .root := by simpa [isStacked] using hstacked
          simp [Kept.pair, Kept.add, isTunnelled, hroot]
      | cons under below =>
          obtain ⟨spawner, others, hfold, hlast, htunnelled⟩ :=
            ih (by simp) (isStacked_tail hstacked)
              fun other hother => hfunction other (List.mem_cons_of_mem _ hother)
          rw [← hfold] at htunnelled
          refine Kept.isTunnelled_add hfold htunnelled ?_ (hfunction frame List.mem_cons_self)
          rw [(isStacked_cons.mp hstacked).1, hlast, List.length_map, List.length_cons,
            Nat.add_sub_cancel]

end Skein
