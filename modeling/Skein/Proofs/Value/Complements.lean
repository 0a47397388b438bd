import Skein.Proofs.Outcome
import Skein.Proofs.Value.Selections

set_option autoImplicit false

/-!
# Value: lists as sets

An ascending set is known by its members: two sets with the same members are equal, whichever way
they were put together.  So the laws of lists are read off their members.  The items of all origins
are the universe of a list, its inverse is the rest of that universe, and the inverse of the inverse
is the list again.  None of this depends on how labels and values are shared between definitions or
repeated within one, since an item is told from another by label, value and origin together.
-/

namespace Skein

open Std (TransOrd LawfulEqOrd ReflOrd)

/-! ## Sets by their members -/

namespace Ascending

variable {α : Type} [Ord α] {s t : Ascending α} {x : α}

theorem nodup [ReflOrd α] (s : Ascending α) : s.toList.Nodup := by
  refine s.ascending.imp fun {x y} hlt heq => ?_
  rw [heq, ReflOrd.compare_self] at hlt
  cases hlt

/-- Sets with the same members are equal. -/
theorem ext_mem [TransOrd α] (h : ∀ x, x ∈ s ↔ x ∈ t) : s = t := by
  have hperm : s.toList.Perm t.toList := (List.perm_ext_iff_of_nodup s.nodup t.nodup).mpr h
  have hantisymm (x y : α) (_ : x ∈ s.toList) (_ : y ∈ t.toList) (hxy : compare x y = .lt)
      (hyx : compare y x = .lt) : x = y :=
    absurd hyx (Std.OrientedCmp.not_lt_of_lt hxy)
  have hlist := hperm.eq_of_pairwise hantisymm s.ascending t.ascending
  cases s
  cases t
  cases hlist
  rfl

theorem union_self [TransOrd α] [LawfulEqOrd α] (s : Ascending α) : s.union s = s :=
  ext_mem fun _ => mem_union.trans or_self_iff

variable [DecidableEq α]

theorem mem_difference : x ∈ s.difference t ↔ x ∈ s ∧ x ∉ t := by
  refine List.mem_filter.trans ?_
  rw [decide_eq_true_iff]
  exact Iff.rfl

theorem mem_intersection : x ∈ s.intersection t ↔ x ∈ s ∧ x ∈ t := by
  refine List.mem_filter.trans ?_
  rw [decide_eq_true_iff]
  exact Iff.rfl

theorem includes_iff : s.includes t = true ↔ ∀ x ∈ t, x ∈ s := by
  refine List.all_eq_true.trans ?_
  simp only [decide_eq_true_iff]
  exact Iff.rfl

end Ascending

/-! ## The universe of a list -/

namespace Selection

variable {r : Registry} {l m all : Selection}

/-- No item is in both lists. -/
def DisjointFrom (l m : Selection) : Prop := ∀ item ∈ l.items, item ∉ m.items

theorem ext_items (hitems : ∀ item, item ∈ l.items ↔ item ∈ m.items)
    (horigins : l.origins = m.origins) : l = m := by
  have hitems : l.items = m.items := Ascending.ext_mem hitems
  cases l
  cases m
  cases hitems
  cases horigins
  rfl

theorem disjointFrom_difference (l m : Selection) : (l.difference m).DisjointFrom m :=
  fun _ hitem => (Ascending.mem_difference.mp hitem).2

theorem contains_union_left (l m : Selection) : (l.union m).contains l = true :=
  Ascending.includes_iff.mpr fun _ hitem => Ascending.mem_union.mpr (.inl hitem)

theorem contains_union_right (l m : Selection) : (l.union m).contains m = true :=
  Ascending.includes_iff.mpr fun _ hitem => Ascending.mem_union.mpr (.inr hitem)

/-- A list is made up of what it has beyond another list and what it shares with it. -/
theorem sameItems_union_difference (l m : Selection) :
    l.sameItems ((l.difference m).union (l.intersection m)) = true := by
  refine decide_eq_true (Ascending.ext_mem fun item => ?_)
  show item ∈ l.items ↔
    item ∈ (l.items.difference m.items).union (l.items.intersection m.items)
  rw [Ascending.mem_union, Ascending.mem_difference, Ascending.mem_intersection]
  constructor
  · intro hitem
    by_cases hother : item ∈ m.items
    · exact .inr ⟨hitem, hother⟩
    · exact .inl ⟨hitem, hother⟩
  · rintro (⟨hitem, _⟩ | ⟨hitem, _⟩)
    · exact hitem
    · exact hitem

/-- An item of a registered definition is one of its entries. -/
theorem mem_items_iff (hr : r.Built) {origin : DefinitionId} {d : Definition}
    (hd : r.get? origin = some d) {item : Item} :
    item ∈ d.items ↔ item.origin = origin ∧ r.Declares item := by
  have hid := hr.id_eq hd
  constructor
  · intro hitem
    obtain ⟨entry, hentry, rfl⟩ := List.mem_map.mp hitem
    exact ⟨hid, hr.declares (Registry.mem_of_get? hd) hentry⟩
  · rintro ⟨rfl, d', hd', hentry⟩
    obtain rfl := Option.some.inj (hd.symm.trans hd')
    refine List.mem_map.mpr ⟨_, hentry, ?_⟩
    rw [Definition.itemOf, hid]

/-- What can be drawn from some origins are the items that they declare. -/
theorem mem_drawable (hr : r.Built) {origins : List DefinitionId} {items : List Item}
    (h : drawable r origins = .ok items) {item : Item} :
    item ∈ items ↔ item.origin ∈ origins ∧ r.Declares item := by
  induction origins generalizing items with
  | nil =>
      cases h
      simp
  | cons origin rest ih =>
      obtain ⟨d, hd, h⟩ := Outcome.of_bind_eq_ok h
      obtain ⟨later, hlater, h⟩ := Outcome.of_bind_eq_ok h
      obtain rfl := Except.ok.inj h
      have hget : r.get? origin = some d := by
        unfold Registry.require at hd
        split at hd
        · next d' hd' => rw [hd', Except.ok.inj hd]
        · cases hd
      rw [List.mem_append, mem_items_iff hr hget, ih hlater, List.mem_cons, or_and_right]

/-- The universe of a list: every item that one of its origins declares. -/
theorem WellFormed.universe (hr : r.Built) (hl : l.WellFormed r) :
    ∃ all, l.allPossible r = .ok all ∧ all.origins = l.origins ∧
      ∀ item, item ∈ all.items ↔ item.origin ∈ l.origins ∧ r.Declares item := by
  obtain ⟨items, hdraw, _⟩ := exists_drawable hr hl.origins
  refine ⟨{ l with items := .ofList items }, ?_, rfl, fun item => ?_⟩
  · rw [allPossible, hdraw]
    rfl
  · exact Ascending.mem_ofList.trans (mem_drawable hr hdraw)

/-- The universe depends on the origins alone. -/
theorem allPossible_congr (horigins : m.origins = l.origins) :
    m.allPossible r = l.allPossible r := by
  rw [allPossible, allPossible, horigins]

theorem inverse_of_allPossible (h : l.allPossible r = .ok all) :
    l.inverse r = .ok (all.difference l) := by
  rw [inverse, h]
  rfl

/-! ## Laws -/

section Laws

variable (hsubset : ∀ item ∈ l.items, item ∈ all.items) (horigins : all.origins = l.origins)

include hsubset horigins

/-- What is beyond a list in a larger one makes it up to the larger one. -/
theorem difference_union : (all.difference l).union l = all := by
  refine ext_items (fun item => ?_) ?_
  · show item ∈ (all.items.difference l.items).union l.items ↔ item ∈ all.items
    rw [Ascending.mem_union, Ascending.mem_difference]
    constructor
    · rintro (⟨hitem, _⟩ | hitem)
      · exact hitem
      · exact hsubset item hitem
    · intro hitem
      by_cases hown : item ∈ l.items
      · exact .inr hown
      · exact .inl ⟨hitem, hown⟩
  · show all.origins.union l.origins = all.origins
    rw [horigins, Ascending.union_self]

theorem difference_difference : all.difference (all.difference l) = l := by
  refine ext_items (fun item => ?_) horigins
  show item ∈ all.items.difference (all.items.difference l.items) ↔ item ∈ l.items
  rw [Ascending.mem_difference, Ascending.mem_difference]
  constructor
  · rintro ⟨hitem, hrest⟩
    exact Decidable.byContradiction fun hother => hrest ⟨hitem, hother⟩
  · intro hitem
    exact ⟨hsubset item hitem, fun hrest => hrest.2 hitem⟩

end Laws

/-- A list of registered origins and its inverse share nothing, together they are all that can be
drawn from the origins, and the inverse of the inverse is the list, with the same origins
throughout.  Of any two lists the union contains both, what one has beyond the other is not in the
other, and it makes up the list together with what both have. -/
theorem set_laws :
    (∀ {r : Registry} {l : Selection}, r.Built → l.WellFormed r →
      ∃ all inv, l.allPossible r = .ok all ∧ l.inverse r = .ok inv ∧
        inv.DisjointFrom l ∧ inv.union l = all ∧ inv.inverse r = .ok l ∧
        all.origins = l.origins ∧ inv.origins = l.origins) ∧
    ∀ l m : Selection,
      (l.union m).contains l = true ∧ (l.union m).contains m = true ∧
        (l.difference m).DisjointFrom m ∧
        l.sameItems ((l.difference m).union (l.intersection m)) = true := by
  constructor
  · intro r l hr hl
    obtain ⟨all, hall, horigins, hmem⟩ := hl.universe hr
    have hsubset (item : Item) (hitem : item ∈ l.items) : item ∈ all.items :=
      (hmem item).mpr (hl.items item hitem)
    -- The inverse has the same origins, so it is completed in the same universe.
    have hagain : (all.difference l).allPossible r = .ok all :=
      (allPossible_congr (m := all.difference l) horigins).trans hall
    have hback : (all.difference l).inverse r = .ok l := by
      rw [inverse_of_allPossible hagain, difference_difference hsubset horigins]
    exact ⟨all, all.difference l, hall, inverse_of_allPossible hall,
      disjointFrom_difference all l, difference_union hsubset horigins, hback, horigins, horigins⟩
  · intro l m
    exact ⟨contains_union_left l m, contains_union_right l m, disjointFrom_difference l m,
      sameItems_union_difference l m⟩

/-- A definition that repeats labels and values. -/
def weather : Definition where
  id := ⟨0⟩
  name := "Weather"
  entries := [("sun", 1), ("rain", 2), ("sun", 3), ("fog", 2), ("rain", 2)]

/-- A second definition, with a label and a value of the first. -/
def mood : Definition where
  id := ⟨1⟩
  name := "Mood"
  entries := [("calm", 1), ("sun", 3)]

/-- The later sun of the weather, and that of the mood. -/
def suns : Selection :=
  (ofItem (weather.itemOf ("sun", 3))).union (ofItem (mood.itemOf ("sun", 3)))

/-- The inverse of two items with one label and one value has the other sun, and the rain once. -/
theorem set_laws_of_suns :
    Registry.Built ⟨[weather, mood]⟩ ∧ suns.WellFormed ⟨[weather, mood]⟩ ∧
      (∃ all inv, suns.allPossible ⟨[weather, mood]⟩ = .ok all ∧
        suns.inverse ⟨[weather, mood]⟩ = .ok inv ∧ inv.DisjointFrom suns ∧
        inv.union suns = all ∧ inv.inverse ⟨[weather, mood]⟩ = .ok suns ∧
        all.origins = suns.origins ∧ inv.origins = suns.origins ∧
        inv.text = "sun, calm, fog, rain") ∧
      (suns.union (.ofItem (mood.itemOf ("calm", 1)))).contains suns = true := by
  have hdefine : Registry.define ⟨[weather]⟩ "Mood" mood.entries =
      .ok (⟨1⟩, ⟨[weather, mood]⟩) := rfl
  have hbuilt : Registry.Built ⟨[weather, mood]⟩ := .define (.define .empty rfl) hdefine
  have hwell : suns.WellFormed ⟨[weather, mood]⟩ :=
    (wellFormed_ofItem ⟨weather, rfl, by decide⟩).union (wellFormed_ofItem ⟨mood, rfl, by decide⟩)
  have htext : (suns.inverse ⟨[weather, mood]⟩).toOption.map text = some "sun, calm, fog, rain" := by
    decide +kernel
  obtain ⟨all, inv, hall, hinverse, hlaws⟩ := set_laws.1 hbuilt hwell
  obtain ⟨hdisjoint, hunion, hback, horigins, horigins'⟩ := hlaws
  rw [hinverse] at htext
  exact ⟨hbuilt, hwell, ⟨all, inv, hall, hinverse, hdisjoint, hunion, hback, horigins, horigins',
    Option.some.inj htext⟩, (set_laws.2 suns _).1⟩

end Selection

end Skein
