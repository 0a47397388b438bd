import Mathlib.Data.List.Perm.Basic
import Skein.Story.State

set_option autoImplicit false

/-!
# Story: what a sequence shows

A sequence shows one of its groups on every visit.  Three kinds count their visits, and what they
show is a function of the count.  The three shuffles draw from a pool of the groups that they have
not shown yet: what a round has shown and what is left in the pool are together every group once,
whatever the draws were.  A sequence shares its story with other sequences and with everything else
that draws, and none of them touches its count or its pool.
-/

namespace Skein

/-! ## Draws within bounds -/

namespace Random.Generator

/-- A scaled draw is below its range.  The high half alone is at most one below it, and where a
second draw may round it up, the low half is too large for it to be the last number. -/
theorem scale_lt {size range : Nat} {draw : Generator → Nat × Generator}
    (hdraw : ∀ g, (draw g).1 < size) (hrange : 0 < range) (g : Generator) :
    (scale size draw range g).1 < range := by
  have hx := hdraw g
  unfold scale
  generalize draw g = drawn at hx ⊢
  obtain ⟨x, g'⟩ := drawn
  dsimp only at hx ⊢
  have hhigh : x * range / size < range :=
    Nat.div_lt_of_lt_mul (Nat.mul_lt_mul_of_pos_right hx hrange)
  split
  next hlow =>
    have hstep : (x * range / size + 1) * size < range * size := by
      have hsplit := Nat.div_add_mod' (x * range) size
      have hroom : (x + 1) * range ≤ size * range := Nat.mul_le_mul_right range hx
      rw [Nat.mul_comm range size]
      rw [Nat.add_mul] at hroom ⊢
      omega
    have hup : x * range / size + 1 < range := Nat.lt_of_mul_lt_mul_right hstep
    dsimp only
    split
    · exact hup
    · exact hhigh
  next => exact hhigh

theorem draw64_lt (g : Generator) : (draw64 g).1 < UInt64.size := by
  have hlow := UInt32.toNat_lt (word g.key g.position)
  have hhigh := UInt32.toNat_lt (word g.key (g.position + 1))
  show (word g.key g.position).toNat + (word g.key (g.position + 1)).toNat * 4294967296 <
    18446744073709551616
  omega

theorem index_lt {n : Nat} (hn : 0 < n) (g : Generator) : (index n g).1 < n := by
  unfold index
  split
  · exact scale_lt (fun _ => UInt32.toNat_lt _) hn g
  · exact scale_lt draw64_lt hn g

end Random.Generator

/-! ## Drawing from a pool -/

/-- The groups of a sequence, each of them shown once and in order. -/
def everyGroup (groups : Nat) : List (Option Nat) := (List.range groups).map some

@[simp] theorem length_everyGroup (groups : Nat) : (everyGroup groups).length = groups := by
  simp [everyGroup]

@[simp] theorem some_mem_everyGroup {groups group : Nat} :
    some group ∈ everyGroup groups ↔ group < groups := by
  simp [everyGroup]

/-- What was shown and what is still in the pool are together every group once. -/
def Shares (groups : Nat) (shown : List (Option Nat)) (pool : List Nat) : Prop :=
  (shown ++ pool.map some).Perm (everyGroup groups)

namespace Shares

variable {groups : Nat} {shown : List (Option Nat)} {pool : List Nat}

theorem nil_range (groups : Nat) : Shares groups [] (List.range groups) := List.Perm.refl _

theorem length (h : Shares groups shown pool) : shown.length + pool.length = groups := by
  have hlength := List.Perm.length_eq h
  simpa using hlength

theorem perm_of_nil (h : Shares groups shown []) : shown.Perm (everyGroup groups) := by
  unfold Shares at h
  simpa using h

theorem lt_of_mem (h : Shares groups shown pool) {group : Nat} (hmem : some group ∈ shown) :
    group < groups :=
  some_mem_everyGroup.mp (List.Perm.mem_iff h |>.mp (List.mem_append_left _ hmem))

/-- One group moves from the pool to what was shown. -/
theorem move (h : Shares groups shown pool) {group : Nat} {rest : List Nat}
    (hpool : (group :: rest).Perm pool) : Shares groups (shown ++ [some group]) rest := by
  unfold Shares at h ⊢
  rw [List.append_assoc, List.singleton_append, ← List.map_cons]
  exact ((hpool.map some).append_left shown).trans h

end Shares

/-- Taking an item out and filling its place with the last one leaves the other items. -/
theorem swapRemove?_perm {list : List Nat} {index : Nat} (h : index < list.length) :
    ∃ taken rest, swapRemove? list index = some (taken, rest) ∧ (taken :: rest).Perm list := by
  rcases List.eq_nil_or_concat list with rfl | ⟨front, last, rfl⟩
  · exact absurd h (Nat.not_lt_zero index)
  rw [List.concat_eq_append] at h ⊢
  refine ⟨(front ++ [last])[index], ((front ++ [last]).set index last).dropLast,
    by simp [swapRemove?, List.getElem?_eq_getElem h], ?_⟩
  have hlast : (last :: front).Perm (front ++ [last]) :=
    (List.perm_append_singleton last front).symm
  by_cases hfront : index < front.length
  · rw [List.getElem_append_left hfront, List.set_append_left _ _ hfront, List.dropLast_concat]
    have hset := (List.set_perm_cons_eraseIdx hfront last).cons front[index]
    have herased := (List.getElem_cons_eraseIdx_perm hfront).cons last
    exact (hset.trans (List.Perm.swap _ _ _)).trans (herased.trans hlast)
  · have hindex : index = front.length := by
      rw [List.length_append, List.length_singleton] at h
      omega
    subst hindex
    simpa using hlast

namespace Progress

theorem unseen_ite (c : Prop) [Decidable c] (visits : Nat) (pool unseen : List Nat) :
    (if c then ({ visits := visits, unseen := pool } : Progress)
      else { visits := visits, unseen := unseen }) =
        { visits := visits, unseen := if c then pool else unseen } := by
  split <;> rfl

/-- A draw from a pool that holds something takes one group out of it. -/
theorem draw_perm {pool : List Nat} (h : pool ≠ []) (g : Random.Generator) (visits : Nat) :
    ∃ group rest g', ({ visits := visits, unseen := pool } : Progress).draw g =
      (some group, { visits := visits, unseen := rest }, g') ∧ (group :: rest).Perm pool := by
  have hindex := Random.Generator.index_lt (List.length_pos_iff.mpr h) g
  obtain ⟨group, rest, htaken, hperm⟩ := swapRemove?_perm hindex
  refine ⟨group, rest, (g.index pool.length).2, ?_, hperm⟩
  unfold draw
  simp [h, htaken]

end Progress

/-! ## The kinds of sequences -/

/-- The visits show what a function says of their number. -/
def CountsVisits (value : Nat → Option Nat) (shown : List (Option Nat)) : Prop :=
  shown = (List.range shown.length).map value

/-- Each full round, one after the other, shows every group once. -/
def FullRounds (groups : Nat) (shown : List (Option Nat)) : Prop :=
  ∀ round, (round + 1) * groups ≤ shown.length →
    ((shown.drop (round * groups)).take groups).Perm (everyGroup groups)

/-- One round shows every group once, and from then on each visit shows the same. -/
def OneRound (groups : Nat) (last : Option Nat) (shown : List (Option Nat)) : Prop :=
  (groups ≤ shown.length → (shown.take groups).Perm (everyGroup groups)) ∧
    ∀ pick ∈ shown.drop groups, pick = last

/-- What a sequence of a kind shows, from its first visit on. -/
def SequenceKind.Shows (kind : SequenceKind) (groups : Nat) (shown : List (Option Nat)) : Prop :=
  match kind with
  | .sequence => CountsVisits (fun visit => some (min visit (groups - 1))) shown
  | .cycle => CountsVisits (fun visit => some (visit % groups)) shown
  | .onceOnly => CountsVisits (fun visit => if visit < groups then some visit else none) shown
  | .shuffle => FullRounds groups shown
  | .shuffleOnce => OneRound groups none shown
  | .shuffleStop => OneRound (groups - 1) (some (groups - 1)) shown

/-! ### Counting -/

theorem CountsVisits.concat {value : Nat → Option Nat} {shown : List (Option Nat)}
    (h : CountsVisits value shown) : CountsVisits value (shown ++ [value shown.length]) := by
  unfold CountsVisits at h ⊢
  rw [List.length_append, List.length_singleton, List.range_succ, List.map_append, ← h]
  rfl

theorem CountsVisits.exists_of_mem {value : Nat → Option Nat} {shown : List (Option Nat)}
    (h : CountsVisits value shown) {pick : Option Nat} (hpick : pick ∈ shown) :
    ∃ visit, value visit = pick := by
  rw [h] at hpick
  obtain ⟨visit, _, hvisit⟩ := List.mem_map.mp hpick
  exact ⟨visit, hvisit⟩

/-! ### Rounds -/

/-- The groups that the next visit of an endless shuffle draws from: a round that is over starts
the next one. -/
def refill (groups : Nat) (unseen : List Nat) : List Nat :=
  if unseen.isEmpty then List.range groups else unseen

/-- An endless shuffle between two visits: some rounds are over, and one is under way. -/
def Shuffling (groups : Nat) (shown : List (Option Nat)) (unseen : List Nat) : Prop :=
  ∃ rounds current, shown = List.flatten rounds ++ current ∧
    (∀ round ∈ rounds, round.Perm (everyGroup groups)) ∧
      Shares groups current (refill groups unseen)

theorem refill_ne_nil {groups : Nat} (hgroups : 0 < groups) (unseen : List Nat) :
    refill groups unseen ≠ [] := by
  unfold refill
  split
  next => exact List.ne_nil_of_length_pos (by simpa using hgroups)
  next hsome => exact fun hnil => hsome (List.isEmpty_iff.mpr hnil)

/-- The visit that takes the last group out of the pool ends the round. -/
theorem Shuffling.concat {groups : Nat} {shown : List (Option Nat)} {unseen : List Nat}
    (h : Shuffling groups shown unseen) {group : Nat} {rest : List Nat}
    (hpool : (group :: rest).Perm (refill groups unseen)) :
    Shuffling groups (shown ++ [some group]) rest := by
  obtain ⟨rounds, current, rfl, hover, hcurrent⟩ := h
  have hmoved := hcurrent.move hpool
  cases rest with
  | nil =>
      refine ⟨rounds ++ [current ++ [some group]], [], by simp, ?_, Shares.nil_range groups⟩
      intro round hround
      rcases List.mem_append.mp hround with hround | hround
      · exact hover round hround
      · rw [List.mem_singleton.mp hround]
        exact hmoved.perm_of_nil
  | cons next rest =>
      exact ⟨rounds, current ++ [some group], by simp, hover, hmoved⟩

/-- Of rounds of the same length, the one at a place is found by its length. -/
theorem take_drop_flatten {groups : Nat} {rounds : List (List (Option Nat))}
    (h : ∀ round ∈ rounds, round.length = groups) (rest : List (Option Nat)) {place : Nat}
    (hplace : place < rounds.length) :
    ((rounds.flatten ++ rest).drop (place * groups)).take groups = rounds[place] := by
  induction rounds generalizing place with
  | nil => exact absurd hplace (Nat.not_lt_zero place)
  | cons round rounds ih =>
      have hround : round.length = groups := h round List.mem_cons_self
      rw [List.flatten_cons, List.append_assoc]
      cases place with
      | zero =>
          rw [Nat.zero_mul, List.drop_zero, List.take_left' hround]
          rfl
      | succ place =>
          have hskip : (place + 1) * groups = round.length + place * groups := by
            rw [Nat.add_mul, Nat.one_mul, Nat.add_comm, hround]
          rw [hskip, ← List.drop_drop, List.drop_left, List.getElem_cons_succ]
          exact ih (fun other hother => h other (List.mem_cons_of_mem _ hother))
            (Nat.lt_of_succ_lt_succ hplace)

theorem Shuffling.rounds {groups : Nat} (hgroups : 0 < groups) {shown : List (Option Nat)}
    {unseen : List Nat} (h : Shuffling groups shown unseen) : FullRounds groups shown := by
  obtain ⟨rounds, current, rfl, hover, hcurrent⟩ := h
  have hlength : ∀ round ∈ rounds, round.length = groups := by
    intro round hround
    rw [(hover round hround).length_eq, length_everyGroup]
  intro place hplace
  -- The round under way has not shown every group, so a full round is one that is over.
  have hshort : current.length < groups := by
    have htotal := hcurrent.length
    have hpool := List.length_pos_iff.mpr (refill_ne_nil hgroups unseen)
    omega
  have hflat : rounds.flatten.length = rounds.length * groups := by
    rw [List.length_flatten, List.map_congr_left hlength]
    simp
  have hover' : place < rounds.length := by
    rw [List.length_append, hflat] at hplace
    have hbelow : (place + 1) * groups < (rounds.length + 1) * groups := by
      rw [Nat.add_mul rounds.length]
      omega
    exact Nat.lt_of_succ_lt_succ (Nat.lt_of_mul_lt_mul_right hbelow)
  rw [take_drop_flatten hlength current hover']
  exact hover _ (List.getElem_mem hover')

theorem Shuffling.lt_of_mem {groups : Nat} {shown : List (Option Nat)} {unseen : List Nat}
    (h : Shuffling groups shown unseen) {group : Nat} (hmem : some group ∈ shown) :
    group < groups := by
  obtain ⟨rounds, current, rfl, hover, hcurrent⟩ := h
  rcases List.mem_append.mp hmem with hmem | hmem
  · obtain ⟨round, hround, hin⟩ := List.mem_flatten.mp hmem
    exact some_mem_everyGroup.mp ((hover round hround).mem_iff.mp hin)
  · exact hcurrent.lt_of_mem hmem

/-! ### One round -/

/-- A shuffle of one round between two visits.  The round draws from the pool until it is over. -/
structure Draining (groups : Nat) (last : Option Nat) (shown : List (Option Nat))
    (p : Progress) : Prop where
  visits : p.visits = shown.length
  underway : shown.length < groups →
    Shares groups shown (if p.visits = 0 then List.range groups else p.unseen)
  ended : OneRound groups last shown

namespace Draining

variable {groups : Nat} {last : Option Nat} {shown : List (Option Nat)} {p : Progress}

theorem start (groups : Nat) (last : Option Nat) : Draining groups last [] {} where
  visits := rfl
  underway _ := Shares.nil_range groups
  ended := by
    refine ⟨fun hnone => ?_, fun pick hpick => ?_⟩
    · obtain rfl : groups = 0 := Nat.le_zero.mp hnone
      exact List.Perm.refl _
    · rw [List.drop_nil] at hpick
      exact absurd hpick List.not_mem_nil

theorem pool_ne_nil (h : Draining groups last shown p) (hshort : p.visits < groups) :
    (if p.visits = 0 then List.range groups else p.unseen) ≠ [] := by
  intro hnil
  rw [h.visits] at hshort
  have htotal := (h.underway hshort).length
  rw [hnil, List.length_nil] at htotal
  omega

/-- A visit while the round is under way. -/
theorem draw (h : Draining groups last shown p) (hshort : p.visits < groups) {group : Nat}
    {rest : List Nat}
    (hpool : (group :: rest).Perm (if p.visits = 0 then List.range groups else p.unseen)) :
    Draining groups last (shown ++ [some group])
      { visits := p.visits + 1, unseen := rest } where
  visits := by rw [h.visits, List.length_append, List.length_singleton]
  underway _ := by
    rw [h.visits] at hshort
    exact (h.underway hshort).move hpool
  ended := by
    rw [h.visits] at hshort
    have hmoved := (h.underway hshort).move hpool
    have htotal := hmoved.length
    refine ⟨fun hfull => ?_, fun pick hpick => ?_⟩
    · obtain rfl : rest = [] := List.eq_nil_of_length_eq_zero (by omega)
      rw [List.take_of_length_le (by omega)]
      exact hmoved.perm_of_nil
    · rw [List.drop_eq_nil_of_le (by omega)] at hpick
      exact absurd hpick List.not_mem_nil

/-- A visit when the round is over. -/
theorem rest (h : Draining groups last shown p) (hfull : groups ≤ p.visits) :
    Draining groups last (shown ++ [last]) { p with visits := p.visits + 1 } where
  visits := by
    rw [List.length_append, List.length_singleton, ← h.visits]
  underway hshort := by
    rw [List.length_append, List.length_singleton, ← h.visits] at hshort
    omega
  ended := by
    rw [h.visits] at hfull
    refine ⟨fun _ => ?_, fun pick hpick => ?_⟩
    · rw [List.take_append_of_le_length hfull]
      exact h.ended.1 hfull
    · rw [List.drop_append_of_le_length hfull] at hpick
      rcases List.mem_append.mp hpick with hpick | hpick
      · exact h.ended.2 pick hpick
      · exact List.mem_singleton.mp hpick

/-- A visit, whatever is drawn. -/
theorem pick (h : Draining groups last shown p) (g : Random.Generator) :
    let answer :=
      if groups ≤ p.visits then (last, { p with visits := p.visits + 1 }, g)
      else (if p.visits = 0 then
          ({ visits := p.visits + 1, unseen := List.range groups } : Progress)
        else { p with visits := p.visits + 1 }).draw g
    Draining groups last (shown ++ [answer.1]) answer.2.1 := by
  dsimp only
  split
  next hfull => exact h.rest hfull
  next hshort =>
    have hunder : p.visits < groups := Nat.lt_of_not_le hshort
    obtain ⟨group, rest, g', hdraw, hperm⟩ := Progress.draw_perm (h.pool_ne_nil hunder) g
      (p.visits + 1)
    rw [Progress.unseen_ite, hdraw]
    exact h.draw hunder hperm

theorem mem (h : Draining groups last shown p) {group : Nat} (hmem : some group ∈ shown) :
    group < groups ∨ some group = last := by
  rcases Nat.lt_or_ge shown.length groups with hshort | hfull
  · exact .inl ((h.underway hshort).lt_of_mem hmem)
  · rw [← List.take_append_drop groups shown] at hmem
    rcases List.mem_append.mp hmem with hmem | hmem
    · exact .inl (some_mem_everyGroup.mp ((h.ended.1 hfull).mem_iff.mp hmem))
    · exact .inr (h.ended.2 _ hmem)

end Draining

/-! ## Visit by visit -/

/-- What was shown so far and the progress of the sequence fit together. -/
def SequenceKind.Follows (kind : SequenceKind) (groups : Nat) (shown : List (Option Nat))
    (p : Progress) : Prop :=
  match kind with
  | .sequence | .cycle | .onceOnly => p.visits = shown.length ∧ kind.Shows groups shown
  | .shuffle => Shuffling groups shown p.unseen
  | .shuffleOnce => Draining groups none shown p
  | .shuffleStop => Draining (groups - 1) (some (groups - 1)) shown p

namespace SequenceKind

theorem follows_start (kind : SequenceKind) (groups : Nat) : kind.Follows groups [] {} := by
  cases kind with
  | sequence | cycle | onceOnly => exact ⟨rfl, rfl⟩
  | shuffle => exact ⟨[], [], rfl, nofun, Shares.nil_range groups⟩
  | shuffleOnce => exact Draining.start groups none
  | shuffleStop => exact Draining.start (groups - 1) (some (groups - 1))

/-- One visit: it shows what the kind of sequence goes on with, whatever is drawn. -/
theorem Follows.pick {kind : SequenceKind} {groups : Nat} (hgroups : 0 < groups)
    {shown : List (Option Nat)} {p : Progress} (h : kind.Follows groups shown p)
    (g : Random.Generator) :
    kind.Follows groups (shown ++ [(p.pick kind groups g).1]) (p.pick kind groups g).2.1 := by
  have hsome : groups ≠ 0 := Nat.ne_of_gt hgroups
  unfold Progress.pick
  rw [if_neg hsome]
  cases kind with
  | sequence | cycle | onceOnly =>
      obtain ⟨hvisits, hshows⟩ := h
      dsimp only
      rw [hvisits]
      exact ⟨by simp, hshows.concat⟩
  | shuffle =>
      dsimp only
      rw [Progress.unseen_ite]
      obtain ⟨group, rest, g', hdraw, hperm⟩ := Progress.draw_perm
        (refill_ne_nil hgroups p.unseen) g (p.visits + 1)
      unfold refill at hdraw
      rw [hdraw]
      exact Shuffling.concat h hperm
  | shuffleOnce => exact Draining.pick h g
  | shuffleStop => exact Draining.pick h g

theorem Follows.shows {kind : SequenceKind} {groups : Nat} (hgroups : 0 < groups)
    {shown : List (Option Nat)} {p : Progress} (h : kind.Follows groups shown p) :
    kind.Shows groups shown := by
  cases kind with
  | sequence | cycle | onceOnly => exact h.2
  | shuffle => exact Shuffling.rounds hgroups h
  | shuffleOnce | shuffleStop => exact Draining.ended h

theorem Follows.lt_of_mem {kind : SequenceKind} {groups : Nat} (hgroups : 0 < groups)
    {shown : List (Option Nat)} {p : Progress} (h : kind.Follows groups shown p) {group : Nat}
    (hmem : some group ∈ shown) : group < groups := by
  cases kind with
  | sequence =>
      obtain ⟨visit, hvisit⟩ := CountsVisits.exists_of_mem h.2 hmem
      have hgroup : min visit (groups - 1) = group := Option.some.inj hvisit
      omega
  | cycle =>
      obtain ⟨visit, hvisit⟩ := CountsVisits.exists_of_mem h.2 hmem
      have hgroup : visit % groups = group := Option.some.inj hvisit
      exact hgroup ▸ Nat.mod_lt visit hgroups
  | onceOnly =>
      obtain ⟨visit, hvisit⟩ := CountsVisits.exists_of_mem h.2 hmem
      obtain ⟨hlt, hgroup⟩ := Option.ite_none_right_eq_some.mp hvisit
      exact Option.some.inj hgroup ▸ hlt
  | shuffle => exact Shuffling.lt_of_mem h hmem
  | shuffleOnce =>
      rcases Draining.mem h hmem with hlt | hlast
      · exact hlt
      · cases hlast
  | shuffleStop =>
      rcases Draining.mem h hmem with hlt | hlast
      · omega
      · have hgroup : group = groups - 1 := Option.some.inj hlast
        omega

end SequenceKind

/-! ## In the course of a story -/

namespace State

/-- How far a sequence has come in a story. -/
def progress (s : State) (id : NodeId) : Progress := (s.sequences.get? id).getD {}

/-- From one state on, a story comes to another one, and meanwhile a sequence has shown this.
Between its visits the story may visit other sequences, and do anything that leaves the progress of
sequences alone. -/
inductive Shown (id : NodeId) (kind : SequenceKind) (groups : Nat) (s : State) :
    List (Option Nat) → State → Prop
  | start : Shown id kind groups s [] s
  | visit {shown : List (Option Nat)} {t : State} (h : Shown id kind groups s shown t) :
      Shown id kind groups s (shown ++ [(t.nextGroup id kind groups).1])
        (t.nextGroup id kind groups).2
  | other {shown : List (Option Nat)} {t : State} (h : Shown id kind groups s shown t)
      {id' : NodeId} (hid : id' ≠ id) (kind' : SequenceKind) (groups' : Nat) :
      Shown id kind groups s shown (t.nextGroup id' kind' groups').2
  | elsewhere {shown : List (Option Nat)} {t u : State} (h : Shown id kind groups s shown t)
      (hsame : u.sequences = t.sequences) : Shown id kind groups s shown u

namespace Shown

variable {id : NodeId} {kind : SequenceKind} {groups : Nat} {s t : State}
  {shown : List (Option Nat)}

theorem random (h : Shown id kind groups s shown t) (low high : Int64) :
    Shown id kind groups s shown (t.random low high).2 :=
  h.elsewhere rfl

theorem reseed (h : Shown id kind groups s shown t) (seed : UInt64) :
    Shown id kind groups s shown (t.reseed seed) :=
  h.elsewhere rfl

/-- Along the way, what the sequence has shown and its progress fit together. -/
theorem follows (hgroups : 0 < groups) (hnew : s.sequences.get? id = none)
    (h : Shown id kind groups s shown t) : kind.Follows groups shown (t.progress id) := by
  induction h with
  | start =>
      unfold progress
      rw [hnew]
      exact kind.follows_start groups
  | @visit shown t _ ih =>
      have hpicked := ih.pick hgroups t.generator
      unfold progress nextGroup
      rw [Table.get?_insert, if_pos rfl]
      exact hpicked
  | @other shown t _ id' hid kind' groups' ih =>
      unfold progress nextGroup
      rw [Table.get?_insert, if_neg hid]
      exact ih
  | elsewhere _ hsame ih =>
      unfold progress at ih ⊢
      rw [hsame]
      exact ih

end Shown

/-- A sequence that was never visited shows, from then on, what its kind says, and always one of
its groups: whatever the randomness is, and whatever happens between its visits. -/
theorem shows_of_shown {id : NodeId} {kind : SequenceKind} {groups : Nat} {s t : State}
    {shown : List (Option Nat)} (hgroups : 0 < groups) (hnew : s.sequences.get? id = none)
    (h : Shown id kind groups s shown t) :
    kind.Shows groups shown ∧ ∀ group, some group ∈ shown → group < groups := by
  have hfollows := h.follows hgroups hnew
  exact ⟨hfollows.shows hgroups, fun group hmem => hfollows.lt_of_mem hgroups hmem⟩

/-- Five visits to a shuffle of two groups, with a draw, a visit to another shuffle and a new seed
between them: two rounds, and the first group of the next. -/
theorem shows_of_shown_interleaved :
    (State.ofSeed 7).sequences.get? ⟨1⟩ = none ∧
      ∃ shown t, shown.length = 5 ∧ Shown ⟨1⟩ .shuffle 2 (.ofSeed 7) shown t ∧
        FullRounds 2 shown ∧ ∀ group, some group ∈ shown → group < 2 := by
  have hnew : (State.ofSeed 7).sequences.get? ⟨1⟩ = none := rfl
  have hother : (⟨2⟩ : NodeId) ≠ ⟨1⟩ := by decide
  have hstart : Shown ⟨1⟩ .shuffle 2 (.ofSeed 7) [] (.ofSeed 7) := .start
  have hround := ((hstart.visit.random 1 6).other hother .shuffle 3).visit
  have hrun := ((hround.visit.reseed 9).visit.random 1 6).visit
  exact ⟨hnew, _, _, rfl, hrun, shows_of_shown (by decide) hnew hrun⟩

end State

end Skein
