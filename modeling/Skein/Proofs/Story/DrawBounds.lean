import Skein.Expr.Sandbox
import Skein.Proofs.Outcome
import Skein.Proofs.Story.Sequences
import Skein.Story.Flow.Basic

set_option autoImplicit false

/-!
# Story: draws stay within their bounds

A draw between two integers scales one from the whole range of 64 bits, and may be rounded up once.
It never leaves the bounds, and where it is added to the lower bound the sum stays within 64 bits.
So a random integer lies between the bounds that were asked for, a random item is one of the list,
and a shuffle takes out a group that is there, whatever the state of the generator.
-/

namespace Skein

open Outcome

/-! ## Integers -/

namespace Random.Generator

variable {low high : Int64}

/-- The number of integers from `low` to `high`, modulo the number of all 64-bit integers. -/
def span (low high : Int64) : Nat :=
  ((high.toInt - low.toInt + 1) % (UInt64.size : Int)).toNat

/-- The integer that is drawn: the draw itself where every integer is possible, else a draw scaled
to the span and added to the lower bound. -/
theorem fst_between (low high : Int64) (g : Generator) :
    (g.between low high).1 =
      if span low high = 0 then Int64.ofNat (draw64 g).1
      else low + Int64.ofNat (scale UInt64.size draw64 (span low high) g).1 := by
  -- The scaled draw is named and not computed: its size is too large to be unfolded.
  delta between
  extract_lets range
  have hrange : range = span low high := rfl
  clear_value range
  subst hrange
  split
  · split
    next x g' hdrawn => rw [hdrawn]
  · split
    next x g' hdrawn =>
      have hscaled : scale UInt64.size draw64 (span low high) g = (x, g') := hdrawn
      rw [hscaled]

theorem toInt_bounds (n : Int64) :
    -9223372036854775808 ≤ n.toInt ∧ n.toInt ≤ 9223372036854775807 :=
  ⟨Int64.minValue_le_toInt n, Int64.toInt_le n⟩

/-- Adding a natural number that fits wraps nothing. -/
theorem toInt_add_ofNat {n : Nat} (h : low.toInt + n ≤ Int64.maxValue.toInt) :
    (low + Int64.ofNat n).toInt = low.toInt + n := by
  have hmax : Int64.maxValue.toInt = 9223372036854775807 := rfl
  have hlow := toInt_bounds low
  have hwrap : (low + Int64.ofNat n).toInt = (low.toInt + n).bmod UInt64.size := by
    rw [Int64.toInt_add, Int64.toInt_ofNat']
    exact Int.add_bmod_bmod
  rw [hwrap]
  refine Int.bmod_eq_of_le ?_ ?_
  · show -((18446744073709551616 : Int) / 2) ≤ _
    omega
  · show _ < ((18446744073709551616 : Int) + 1) / 2
    omega

/-- Where some integers are possible and not all, their number is the span. -/
theorem span_eq (h : low ≤ high) (hspan : span low high ≠ 0) :
    (span low high : Int) = high.toInt - low.toInt + 1 := by
  have hle := Int64.le_iff_toInt_le.mp h
  have hlow := toInt_bounds low
  have hhigh := toInt_bounds high
  have hdef : span low high = ((high.toInt - low.toInt + 1) % 18446744073709551616).toNat := rfl
  omega

theorem span_of_lt (h : low ≤ high) (hall : high.toInt - low.toInt + 1 < UInt64.size) :
    span low high = (high.toInt - low.toInt + 1).toNat ∧ span low high ≠ 0 := by
  have hle := Int64.le_iff_toInt_le.mp h
  have hsize : (UInt64.size : Int) = 18446744073709551616 := rfl
  have hdef : span low high = ((high.toInt - low.toInt + 1) % 18446744073709551616).toNat := rfl
  omega

/-- Only where every integer is possible, the span comes to nothing. -/
theorem bounds_of_span_eq_zero (h : low ≤ high) (hspan : span low high = 0) :
    low.toInt = Int64.minValue.toInt ∧ high.toInt = Int64.maxValue.toInt := by
  have hle := Int64.le_iff_toInt_le.mp h
  have hlow := toInt_bounds low
  have hhigh := toInt_bounds high
  have hmin : Int64.minValue.toInt = -9223372036854775808 := rfl
  have hmax : Int64.maxValue.toInt = 9223372036854775807 := rfl
  have hdef : span low high = ((high.toInt - low.toInt + 1) % 18446744073709551616).toNat := rfl
  omega

theorem scaled_lt (hspan : span low high ≠ 0) (g : Generator) :
    (scale UInt64.size draw64 (span low high) g).1 < span low high :=
  scale_lt draw64_lt (Nat.pos_of_ne_zero hspan) g

/-- The scaled draw is added to the lower bound without leaving 64 bits. -/
theorem toInt_between (h : low ≤ high) (hspan : span low high ≠ 0) (g : Generator) :
    (g.between low high).1.toInt =
      low.toInt + (scale UInt64.size draw64 (span low high) g).1 := by
  have hscaled := scaled_lt hspan g
  have hnumber := span_eq h hspan
  have hhigh := toInt_bounds high
  have hmax : Int64.maxValue.toInt = 9223372036854775807 := rfl
  rw [fst_between, if_neg hspan]
  apply toInt_add_ofNat
  omega

theorem between_bounds (h : low ≤ high) (g : Generator) :
    low ≤ (g.between low high).1 ∧ (g.between low high).1 ≤ high := by
  rw [Int64.le_iff_toInt_le, Int64.le_iff_toInt_le]
  by_cases hspan : span low high = 0
  · obtain ⟨hlow, hhigh⟩ := bounds_of_span_eq_zero h hspan
    rw [hlow, hhigh]
    exact ⟨Int64.minValue_le_toInt _, Int64.toInt_le _⟩
  · have hscaled := scaled_lt hspan g
    have hnumber := span_eq h hspan
    rw [toInt_between h hspan]
    omega

/-! ## Places -/

theorem toNat_toInt_ofNat_le (n : Nat) : (Int64.ofNat n).toInt.toNat ≤ n := by
  have hwrap : (Int64.ofNat n).toInt = (n : Int).bmod 18446744073709551616 := Int64.toInt_ofNat'
  rw [hwrap, Int.bmod_def]
  split <;> omega

theorem span_ofNat (n : Nat) : span 0 (Int64.ofNat n - 1) = n % 18446744073709551616 := by
  have hlast : (Int64.ofNat n - 1).toInt = ((n : Int) - 1).bmod 18446744073709551616 := by
    rw [Int64.toInt_sub, Int64.toInt_ofNat']
    exact Int.bmod_sub_bmod
  have hdef : span 0 (Int64.ofNat n - 1) =
      (((Int64.ofNat n - 1).toInt - 0 + 1) % 18446744073709551616).toNat := rfl
  rw [hdef, hlast, Int.bmod_def]
  split <;> omega

/-- A place that is drawn for a list is one of its places.  Even where the size of the list exceeds
what 64 bits can count, the draw stays below it, and a draw that turns negative gives the first
place. -/
theorem place_lt {n : Nat} (hn : 0 < n) (g : Generator) :
    (g.between 0 (Int64.ofNat n - 1)).1.toInt.toNat < n := by
  have hspan := span_ofNat n
  rw [fst_between]
  split
  · next hzero =>
      have hdraw : (draw64 g).1 < 18446744073709551616 := draw64_lt g
      have hplace := toNat_toInt_ofNat_le (draw64 g).1
      omega
  · next hsome =>
      have hscaled := scaled_lt hsome g
      have hplace := toNat_toInt_ofNat_le
        (scale UInt64.size draw64 (span 0 (Int64.ofNat n - 1)) g).1
      rw [Int64.zero_add]
      omega

end Random.Generator

/-! ## Hosts -/

section Hosts

variable {σ ε : Type} {h : Host σ ε}

/-- The host draws integers from a generator that is part of its state. -/
def Host.DrawsFrom (h : Host σ ε) (generator : σ → Random.Generator) : Prop :=
  ∀ (low high : Int64) (s : σ), (h.random low high s).1 = ((generator s).between low high).1

/-- A random integer lies between its bounds, and a random item of a list that has some is one of
them, alone in a list. -/
structure Host.DrawsWithin (h : Host σ ε) : Prop where
  random : ∀ {v w : Value} {low high : Int64}, v.asInt? = some low → w.asInt? = some high →
    low ≤ high → ∀ s : σ, ∃ n, low ≤ n ∧ n ≤ high ∧
      Builtin.random.call h [v, w] s = .ok (some (.int n)) (h.random low high s).2
  listRandom : ∀ {l : Selection}, l.isEmpty = false → ∀ s : σ, ∃ item ∈ l.items, ∃ t : σ,
    Builtin.listRandom.call h [.list l] s = .ok (some (.list (.ofItem item))) t

namespace Host

theorem call_random {v w : Value} {low high : Int64} (hv : v.asInt? = some low)
    (hw : w.asInt? = some high) (hle : low ≤ high) (s : σ) :
    Builtin.random.call h [v, w] s =
      .ok (some (.int (h.random low high s).1)) (h.random low high s).2 := by
  have harg {u : Value} {n : Int64} (hu : u.asInt? = some n) :
      (Builtin.random.intArg h u : EStateM ε σ Int64) s = .ok n s := by
    unfold Builtin.intArg
    rw [hu]
    rfl
  refine (run_of_eq_ok (harg hv)).trans ((run_of_eq_ok (harg hw)).trans ?_)
  have hnot : ¬low > high := Int64.not_lt.mpr hle
  rw [if_neg hnot]
  rfl

theorem call_listRandom {l : Selection} (hl : l.isEmpty = false) {s : σ} {item : Item}
    (hitem : l.items.toList[(h.random 0 (Int64.ofNat l.size - 1) s).1.toInt.toNat]? = some item) :
    Builtin.listRandom.call h [.list l] s =
      .ok (some (.list (.ofItem item))) (h.random 0 (Int64.ofNat l.size - 1) s).2 := by
  have harg : Builtin.listRandom.listArg h (.list l) s = .ok l s := rfl
  have hdraw : Builtin.draw h 0 (Int64.ofNat l.size - 1) s =
      .ok (h.random 0 (Int64.ofNat l.size - 1) s).1
        (h.random 0 (Int64.ofNat l.size - 1) s).2 := rfl
  refine (run_of_eq_ok harg).trans ?_
  rw [hl]
  refine (run_of_eq_ok hdraw).trans ?_
  rw [hitem]
  rfl

theorem DrawsFrom.drawsWithin {generator : σ → Random.Generator} (hh : h.DrawsFrom generator) :
    h.DrawsWithin where
  random {v w low high} hv hw hle s := by
    obtain ⟨hlow, hhigh⟩ := Random.Generator.between_bounds hle (generator s)
    refine ⟨(h.random low high s).1, ?_, ?_, call_random hv hw hle s⟩
    · rw [hh]
      exact hlow
    · rw [hh]
      exact hhigh
  listRandom {l} hl s := by
    have hsize : 0 < l.size := by
      refine Nat.pos_of_ne_zero fun hzero => ?_
      rw [Selection.isEmpty, Ascending.isEmpty, List.eq_nil_of_length_eq_zero hzero] at hl
      cases hl
    have hplace := Random.Generator.place_lt hsize (generator s)
    rw [← hh] at hplace
    exact ⟨_, List.getElem_mem hplace, _, call_listRandom hl (List.getElem?_eq_getElem hplace)⟩

end Host

theorem Sandbox.drawsFrom_host : Sandbox.host.DrawsFrom Sandbox.generator := fun _ _ _ => rfl

theorem Story.drawsFrom_host (story : Story) (run : Call) :
    (story.host run).DrawsFrom State.generator := fun _ _ _ => rfl

end Hosts

/-- A draw between two bounds lies between them and, unless every integer is possible, is the lower
bound plus a scaled draw as an integer.  A draw of a place lies below the number of places, however
many there are.  So, from every state of a sandbox or of a story, a random integer lies between its
bounds, and a random item of a list that has some is one of them.  A shuffle that has groups left
draws the place of one of them and takes it out. -/
theorem draws_within_bounds :
    (∀ (g : Random.Generator) {low high : Int64}, low ≤ high →
      low ≤ (g.between low high).1 ∧ (g.between low high).1 ≤ high ∧
        (high.toInt - low.toInt + 1 < UInt64.size →
          (g.between low high).1.toInt = low.toInt +
            (g.scale UInt64.size Random.Generator.draw64 (high.toInt - low.toInt + 1).toNat).1)) ∧
    (∀ (g : Random.Generator) {n : Nat}, 0 < n → (g.index n).1 < n) ∧
    Sandbox.host.DrawsWithin ∧ (∀ (story : Story) (run : Call), (story.host run).DrawsWithin) ∧
    ∀ (p : Progress) (g : Random.Generator), p.unseen ≠ [] →
      (g.index p.unseen.length).1 < p.unseen.length ∧
        ∃ group rest g', p.draw g = (some group, { p with unseen := rest }, g') ∧
          (group :: rest).Perm p.unseen := by
  refine ⟨fun g low high hle => ?_, fun g n hn => Random.Generator.index_lt hn g,
    Sandbox.drawsFrom_host.drawsWithin, fun story run => (story.drawsFrom_host run).drawsWithin,
    fun p g hp => ?_⟩
  · obtain ⟨hlow, hhigh⟩ := Random.Generator.between_bounds hle g
    refine ⟨hlow, hhigh, fun hall => ?_⟩
    obtain ⟨hspan, hsome⟩ := Random.Generator.span_of_lt hle hall
    rw [← hspan]
    exact Random.Generator.toInt_between hle hsome g
  · exact ⟨Random.Generator.index_lt (List.length_pos_iff.mpr hp) g,
      Progress.draw_perm hp g p.visits⟩

/-- A list of three items. -/
def lights : Selection := .ofItems [⟨"red", 1, ⟨0⟩⟩, ⟨"amber", 2, ⟨0⟩⟩, ⟨"green", 3, ⟨0⟩⟩]

/-- The ranges of one value, of a die and of all values, and that of places which 32 bits cannot
count; lists of one and of three items; shuffles with one and with four groups left. -/
theorem draws_within_bounds_at_ends :
    ((Random.Generator.ofSeed 42).between 7 7).1 = 7 ∧
      Int64.minValue ≤ ((Random.Generator.ofSeed 42).between Int64.minValue Int64.maxValue).1 ∧
      (∃ n t, 1 ≤ n ∧ n ≤ 6 ∧ Builtin.random.call Sandbox.host [.int 1, .int 6]
        (Sandbox.ofSeed 42) = .ok (some (.int n)) t) ∧
      ((Random.Generator.ofSeed 42).index 5000000000).1 < 5000000000 ∧
      (∃ t, Builtin.listRandom.call Sandbox.host [.list (.ofItem ⟨"red", 1, ⟨0⟩⟩)]
        (Sandbox.ofSeed 42) = .ok (some (.list (.ofItem ⟨"red", 1, ⟨0⟩⟩))) t) ∧
      (∃ item t, item.label ∈ ["red", "amber", "green"] ∧
        Builtin.listRandom.call Sandbox.host [.list lights] (Sandbox.ofSeed 42) =
          .ok (some (.list (.ofItem item))) t) ∧
      (∃ g', Progress.draw { visits := 2, unseen := [5] } (.ofSeed 42) =
        (some 5, { visits := 2, unseen := [] }, g')) ∧
      ∃ group rest g', Progress.draw { visits := 0, unseen := [0, 1, 2, 3] } (.ofSeed 42) =
        (some group, { visits := 0, unseen := rest }, g') ∧
          (group :: rest).Perm [0, 1, 2, 3] := by
  obtain ⟨hbetween, hindex, hsandbox, _, hshuffle⟩ := draws_within_bounds
  obtain ⟨hlow, hhigh, _⟩ := hbetween (.ofSeed 42) (Int64.le_refl 7)
  have hall : Int64.minValue ≤ Int64.maxValue := by decide
  have hdie : (1 : Int64) ≤ 6 := by decide
  refine ⟨Int64.le_antisymm hhigh hlow, (hbetween (.ofSeed 42) hall).1, ?_, hindex _ (by decide),
    ?_, ?_, ?_, ?_⟩
  · have hint (n : Int64) : (Value.int n).asInt? = some n := rfl
    obtain ⟨n, hone, hsix, hcall⟩ :=
      hsandbox.random (hint 1) (hint 6) hdie (Sandbox.ofSeed 42)
    exact ⟨n, _, hone, hsix, hcall⟩
  · have hred : (Selection.ofItem ⟨"red", 1, ⟨0⟩⟩).isEmpty = false := rfl
    obtain ⟨item, hitem, t, hcall⟩ := hsandbox.listRandom hred (Sandbox.ofSeed 42)
    obtain rfl := List.mem_singleton.mp hitem
    exact ⟨t, hcall⟩
  · have hlights : lights.isEmpty = false := by decide
    have hlabels : ∀ item ∈ lights.items.toList, item.label ∈ ["red", "amber", "green"] := by
      decide
    obtain ⟨item, hitem, t, hcall⟩ := hsandbox.listRandom hlights (Sandbox.ofSeed 42)
    exact ⟨item, t, hlabels item hitem, hcall⟩
  · obtain ⟨_, group, rest, g', hdraw, hperm⟩ :=
      hshuffle { visits := 2, unseen := [5] } (.ofSeed 42) (List.cons_ne_nil _ _)
    obtain ⟨rfl, rfl⟩ := List.cons.inj (List.perm_singleton.mp hperm)
    exact ⟨g', hdraw⟩
  · exact (hshuffle { visits := 0, unseen := [0, 1, 2, 3] } (.ofSeed 42)
      (List.cons_ne_nil _ _)).2

end Skein
