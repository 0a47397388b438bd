import Mathlib.Data.Nat.Find
import Mathlib.Order.Monotone.Basic
import Skein.Proofs.Outcome
import Skein.Story.Script

set_option autoImplicit false

/-!
# Story: the parts of a knot

The objects of a knot are cut into parts: the body, and each of its stitches.  The checks on a knot
put the cuts in order and within the objects, so every object is in one part.  Two cuts may be at
the same place, and the part between them is empty.
-/

namespace Skein

namespace Knot

/-! ## What the checks say -/

theorem check_of_checkAll {passed : List String} {knots : List Knot}
    (h : checkAll passed knots = .ok ()) : ∀ k ∈ knots, k.check = .ok () := by
  induction knots generalizing passed with
  | nil => nofun
  | cons knot rest ih =>
      rw [checkAll] at h
      split at h
      · cases h
      · obtain ⟨_, hknot, hrest⟩ := Outcome.of_bind_eq_ok h
        exact List.forall_mem_cons.mpr ⟨hknot, ih hrest⟩

theorem offset_of_checkStitches {k : Knot} {least : Nat} {stitches : List Stitch}
    (h : k.checkStitches least stitches = .ok ()) :
    ∀ s ∈ stitches, least ≤ s.offset ∧ s.offset ≤ k.objects.length := by
  induction stitches generalizing least with
  | nil => nofun
  | cons stitch rest ih =>
      rw [checkStitches] at h
      split at h
      · cases h
      · next hplace =>
        simp only [Bool.or_eq_true, decide_eq_true_eq, not_or] at hplace
        refine List.forall_mem_cons.mpr ⟨by omega, fun s hs => ?_⟩
        obtain ⟨hleast, hwithin⟩ := ih h s hs
        exact ⟨by omega, hwithin⟩

theorem sorted_of_checkStitches {k : Knot} {least : Nat} {stitches : List Stitch}
    (h : k.checkStitches least stitches = .ok ()) :
    stitches.Pairwise fun first second => first.offset ≤ second.offset := by
  induction stitches generalizing least with
  | nil => exact .nil
  | cons stitch rest ih =>
      rw [checkStitches] at h
      split at h
      · cases h
      · exact .cons (fun s hs => (offset_of_checkStitches h s hs).1) (ih h)

theorem choiceIndex_lt_of_checkGathers {k : Knot} {gathers : List Gather}
    (h : k.checkGathers gathers = .ok ()) : ∀ g ∈ gathers, g.choiceIndex < k.objects.length := by
  induction gathers with
  | nil => nofun
  | cons gather rest ih =>
      rw [checkGathers] at h
      split at h
      · next hchoice =>
        refine List.forall_mem_cons.mpr ⟨?_, ih h⟩
        obtain ⟨n, hn, _⟩ := (Option.any_eq_true _ _).mp hchoice
        exact (List.getElem?_eq_some_iff.mp hn).1
      · cases h

/-- Stitches start within the objects, none before the one in front of it, and gathers follow
objects. -/
structure Ordered (k : Knot) : Prop where
  within : ∀ stitch ∈ k.stitches, stitch.offset ≤ k.objects.length
  sorted : k.stitches.Pairwise fun first second => first.offset ≤ second.offset
  follows : ∀ gather ∈ k.allGathers, gather.choiceIndex < k.objects.length

theorem ordered_of_check {k : Knot} (h : k.check = .ok ()) : k.Ordered := by
  obtain ⟨_, hstitches, hgathers⟩ := Outcome.of_bind_eq_ok h
  exact ⟨fun s hs => (offset_of_checkStitches hstitches s hs).2,
    sorted_of_checkStitches hstitches, choiceIndex_lt_of_checkGathers hgathers⟩

/-! ## Parts -/

variable {k : Knot}

/-- Where the parts of a knot meet.  Part `0` is the body and part `n + 1` is stitch `n`; part `n`
goes from edge `n` to edge `n + 1`. -/
def edge (k : Knot) : Nat → Nat
  | 0 => 0
  | n + 1 => (k.stitches[n]?.map (·.offset)).getD k.objects.length

/-- A part of the knot holds the object at a place. -/
structure Holds (k : Knot) (part index : Nat) : Prop where
  isPart : part ≤ k.stitches.length
  start_le : k.edge part ≤ index
  lt_stop : index < k.edge (part + 1)

theorem bodyEnd_eq (k : Knot) : k.bodyEnd = k.edge 1 := by
  unfold bodyEnd edge
  cases k.stitches with
  | nil => rfl
  | cons stitch rest => rfl

theorem edge_of_stitch {n : Nat} {stitch : Stitch} (h : k.stitches[n]? = some stitch) :
    k.edge (n + 1) = stitch.offset := by
  rw [edge, h, Option.map_some, Option.getD_some]

theorem edge_last {n : Nat} (h : k.stitches.length ≤ n) : k.edge (n + 1) = k.objects.length := by
  rw [edge, List.getElem?_eq_none h, Option.map_none, Option.getD_none]

theorem Ordered.edge_le (h : k.Ordered) (n : Nat) : k.edge n ≤ k.objects.length := by
  cases n with
  | zero => exact Nat.zero_le _
  | succ n =>
      cases hstitch : k.stitches[n]? with
      | none => exact (edge_last (List.getElem?_eq_none_iff.mp hstitch)).le
      | some stitch =>
          rw [edge_of_stitch hstitch]
          exact h.within stitch (List.mem_of_getElem? hstitch)

theorem Ordered.monotone_edge (h : k.Ordered) : Monotone k.edge := by
  refine monotone_nat_of_le_succ fun n => ?_
  cases n with
  | zero => exact Nat.zero_le _
  | succ n =>
      rcases Nat.lt_or_ge (n + 1) k.stitches.length with hlt | hge
      · have hsorted := List.pairwise_iff_getElem.mp h.sorted n (n + 1) (by omega) hlt (by omega)
        rw [edge_of_stitch (List.getElem?_eq_getElem (by omega)),
          edge_of_stitch (List.getElem?_eq_getElem hlt)]
        exact hsorted
      · rw [edge_last hge]
        exact h.edge_le (n + 1)

/-- Every object is in a part. -/
theorem exists_holds {index : Nat} (hindex : index < k.objects.length) :
    ∃ part, k.Holds part index := by
  have hsome : ∃ part, index < k.edge (part + 1) :=
    ⟨k.stitches.length, by rwa [edge_last (Nat.le_refl _)]⟩
  refine ⟨Nat.find hsome, Nat.find_min' hsome ?_, ?_, Nat.find_spec hsome⟩
  · rwa [edge_last (Nat.le_refl _)]
  · cases hfirst : Nat.find hsome with
    | zero => exact Nat.zero_le _
    | succ part => exact Nat.le_of_not_lt (Nat.find_min hsome (by omega))

/-- No object is in two parts. -/
theorem Ordered.holds_unique (h : k.Ordered) {part other index : Nat} (hpart : k.Holds part index)
    (hother : k.Holds other index) : part = other := by
  have hle {first second : Nat} (hfirst : k.Holds first index) (hsecond : k.Holds second index) :
      second ≤ first := by
    by_contra hlt
    have hedge : k.edge (first + 1) ≤ k.edge second := h.monotone_edge (Nat.lt_of_not_le hlt)
    have hstop := hfirst.lt_stop
    have hstart := hsecond.start_le
    omega
  exact Nat.le_antisymm (hle hother hpart) (hle hpart hother)

/-- Where the next part with an object starts, earlier parts have ended. -/
theorem Ordered.edge_eq_of_holds (h : k.Ordered) {part n : Nat} (hpart : k.Holds part (k.edge n)) :
    n ≤ part ∧ k.edge part = k.edge n := by
  have hle : n ≤ part := by
    by_contra hlt
    have hedge := h.monotone_edge (Nat.lt_of_not_le hlt)
    exact absurd hpart.lt_stop (Nat.not_lt.mpr hedge)
  exact ⟨hle, Nat.le_antisymm hpart.start_le (h.monotone_edge hle)⟩

/-! ## Where a part ends -/

/-- From an object on, the end that is found is the end of its part. -/
theorem Ordered.segmentEnd_eq (h : k.Ordered) {part index : Nat} (hpart : k.Holds part index) :
    k.segmentEnd index = k.edge (part + 1) := by
  have hstop := hpart.lt_stop
  have hstart := hpart.start_le
  unfold segmentEnd
  split
  next stitch hfound =>
    obtain ⟨hlater, i, hi, rfl, hfirst⟩ := List.find?_eq_some_iff_getElem.mp hfound
    have hoffset {j : Nat} (hj : j < k.stitches.length) : k.edge (j + 1) = k.stitches[j].offset :=
      edge_of_stitch (List.getElem?_eq_getElem hj)
    have hafter : index < k.stitches[i].offset := of_decide_eq_true hlater
    rcases Nat.lt_trichotomy i part with hlt | rfl | hgt
    · have hedge := h.monotone_edge (Nat.succ_le_of_lt hlt)
      rw [Nat.succ_eq_add_one, hoffset hi] at hedge
      omega
    · exact (hoffset hi).symm
    · have hnot := hfirst part hgt
      rw [hoffset (by omega)] at hstop
      simp [hstop] at hnot
  next hnone =>
    rcases Nat.lt_or_ge part k.stitches.length with hlt | hge
    · have hnot := List.find?_eq_none.mp hnone _ (List.getElem_mem hlt)
      rw [edge_of_stitch (List.getElem?_eq_getElem hlt)] at hstop
      exact absurd (decide_eq_true hstop) hnot
    · exact (edge_last hge).symm

/-- Behind the last object there is only the end. -/
theorem Ordered.segmentEnd_of_le (h : k.Ordered) {index : Nat} (hindex : k.objects.length ≤ index) :
    k.segmentEnd index = k.objects.length := by
  unfold segmentEnd
  split
  next stitch hfound =>
    have hafter : index < stitch.offset := by simpa using List.find?_some hfound
    have hwithin := h.within stitch (List.mem_of_find?_eq_some hfound)
    omega
  next => rfl

/-- A body with objects, or without stitches behind it, ends where a part ends that starts there. -/
theorem Ordered.bodyEnd_eq_segmentEnd (h : k.Ordered) (hbody : k.bodyEnd ≠ 0 ∨ k.stitches = []) :
    k.bodyEnd = k.segmentEnd 0 := by
  rcases hbody with hbody | hnone
  · have hholds : k.Holds 0 0 :=
      ⟨Nat.zero_le _, Nat.le_refl _, k.bodyEnd_eq ▸ Nat.pos_of_ne_zero hbody⟩
    rw [h.segmentEnd_eq hholds, k.bodyEnd_eq]
  · simp [bodyEnd, segmentEnd, hnone]

end Knot

theorem Script.ordered {script : Script} {id : KnotId} {k : Knot} (h : script.knot? id = some k) :
    k.Ordered :=
  Knot.ordered_of_check (Knot.check_of_checkAll script.sound k (List.mem_of_getElem? h))

end Skein
