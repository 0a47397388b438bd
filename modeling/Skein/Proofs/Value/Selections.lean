import Skein.Value.Apply

set_option autoImplicit false

/-!
# Value: lists stay within their definitions

A list is well formed for a registry if its origins are registered, and each of its items is
an entry of a definition among them.  What is computed from well-formed lists is well formed
again, so no operation on them ever meets a definition that is not there.
-/

namespace Skein

open Std (TransOrd LawfulEqOrd LawfulEqCmp)

/-! ## Members of ascending sets -/

namespace Ascending

variable {α : Type} [Ord α] {s t : Ascending α} {x z : α} {list : List α}

theorem mem_of_mem_filter {test : α → Bool} (h : z ∈ s.filter test) : z ∈ s :=
  (List.mem_filter.mp h).1

theorem mem_place_of_mem (h : z ∈ list) : z ∈ place x list := by
  induction list with
  | nil => cases h
  | cons y rest ih =>
      unfold place
      split
      · exact List.mem_cons_of_mem _ h
      · exact h
      · rcases List.mem_cons.mp h with rfl | h
        · exact List.mem_cons_self
        · exact List.mem_cons_of_mem _ (ih h)

theorem mem_place_self [LawfulEqOrd α] : x ∈ place x list := by
  induction list with
  | nil => exact List.mem_singleton_self x
  | cons y rest ih =>
      unfold place
      split
      · exact List.mem_cons_self
      · next hxy =>
          rw [LawfulEqCmp.eq_of_compare hxy]
          exact List.mem_cons_self
      · exact List.mem_cons_of_mem _ ih

variable [TransOrd α]

/-- What is found after some insertions was there or has been inserted. -/
theorem of_mem_foldl_insert (h : z ∈ list.foldl insert s) : z ∈ s ∨ z ∈ list := by
  induction list generalizing s with
  | nil => exact .inl h
  | cons x rest ih =>
      rcases ih h with hz | hz
      · rcases mem_of_mem_place hz with rfl | hz
        · exact .inr List.mem_cons_self
        · exact .inl hz
      · exact .inr (List.mem_cons_of_mem _ hz)

theorem mem_foldl_insert_of_mem (h : z ∈ s) : z ∈ list.foldl insert s := by
  induction list generalizing s with
  | nil => exact h
  | cons x rest ih => exact ih (mem_place_of_mem h)

theorem mem_foldl_insert [LawfulEqOrd α] (h : z ∈ list) : z ∈ list.foldl insert s := by
  induction list generalizing s with
  | nil => cases h
  | cons x rest ih =>
      rcases List.mem_cons.mp h with rfl | h
      · exact mem_foldl_insert_of_mem (s := s.insert z) mem_place_self
      · exact ih h

theorem mem_of_mem_ofList (h : z ∈ ofList list) : z ∈ list := by
  rcases of_mem_foldl_insert h with hz | hz
  · cases hz
  · exact hz

theorem mem_ofList [LawfulEqOrd α] : z ∈ ofList list ↔ z ∈ list :=
  ⟨mem_of_mem_ofList, mem_foldl_insert⟩

theorem mem_union [LawfulEqOrd α] : z ∈ s.union t ↔ z ∈ s ∨ z ∈ t := by
  constructor
  · exact of_mem_foldl_insert
  · rintro (h | h)
    · exact mem_foldl_insert_of_mem h
    · exact mem_foldl_insert h

end Ascending

instance : LawfulEqOrd DefinitionId where
  eq_of_compare {a b} h := by
    have hindex : a.index = b.index := Nat.compare_eq_eq.mp h
    cases a
    cases b
    exact congrArg DefinitionId.mk hindex

instance : LawfulEqOrd Item where
  eq_of_compare {a b} h := by
    obtain ⟨hvalue, hrest⟩ := Ordering.then_eq_eq.mp h
    obtain ⟨horigin, hlabel⟩ := Ordering.then_eq_eq.mp hrest
    have hvalue : a.value = b.value := LawfulEqOrd.eq_of_compare hvalue
    have horigin : a.origin = b.origin := LawfulEqOrd.eq_of_compare horigin
    have hlabel : a.label = b.label := LawfulEqOrd.eq_of_compare hlabel
    cases a
    cases b
    cases hvalue
    cases horigin
    cases hlabel
    rfl

/-! ## Registries -/

namespace Registry

/-- A registry in which definitions were registered one after another. -/
inductive Built : Registry → Prop where
  | empty : Built ∅
  | define {r r' : Registry} {name : String} {entries : List (String × Int64)}
      {id : DefinitionId} (h : Built r) (hdefine : r.define name entries = .ok (id, r')) :
      Built r'

/-- A definition knows the place at which it stands. -/
theorem Built.id_eq {r : Registry} (h : r.Built) {id : DefinitionId} {d : Definition}
    (hget : r.get? id = some d) : d.id = id := by
  induction h with
  | empty => cases hget
  | @define r r' name entries id' _ hdefine ih =>
      unfold Registry.define at hdefine
      split at hdefine
      · cases hdefine
      · cases hdefine
        unfold get? at hget
        rw [List.getElem?_append] at hget
        split at hget
        · exact ih hget
        · next hlast =>
            have hplace : id.index - r.definitions.length = 0 := by
              have := (List.getElem?_eq_some_iff.mp hget).1
              simpa using this
            have hindex : id.index = r.definitions.length := by omega
            rw [hplace] at hget
            cases hget
            exact (congrArg DefinitionId.mk hindex).symm

/-- A definition that is found by its name stands somewhere. -/
theorem Built.get?_of_mem {r : Registry} (h : r.Built) {d : Definition}
    (hd : d ∈ r.definitions) : r.get? d.id = some d := by
  obtain ⟨place, hplace⟩ := List.mem_iff_getElem?.mp hd
  have hid : d.id = ⟨place⟩ := h.id_eq hplace
  rw [hid]
  exact hplace

/-- Whether a definition stands at a place. -/
def Registers (r : Registry) (id : DefinitionId) : Prop := ∃ d, r.get? id = some d

/-- Whether an item is an entry of the definition that it names. -/
def Declares (r : Registry) (item : Item) : Prop :=
  ∃ d, r.get? item.origin = some d ∧ (item.label, item.value) ∈ d.entries

theorem require_eq_ok {r : Registry} {id : DefinitionId} {d : Definition}
    (h : r.get? id = some d) : r.require id = .ok d := by
  rw [require, h]

/-- Every entry of a registered definition makes an item that it declares. -/
theorem Built.declares {r : Registry} (h : r.Built) {d : Definition} (hd : d ∈ r.definitions)
    {entry : String × Int64} (hentry : entry ∈ d.entries) : r.Declares (d.itemOf entry) :=
  ⟨d, h.get?_of_mem hd, hentry⟩

theorem mem_of_get? {r : Registry} {id : DefinitionId} {d : Definition}
    (h : r.get? id = some d) : d ∈ r.definitions := List.mem_of_getElem? h

end Registry

namespace Definition

theorem of_item?_eq_some {d : Definition} {label : String} {item : Item}
    (h : d.item? label = some item) : ∃ entry ∈ d.entries, item = d.itemOf entry := by
  obtain ⟨entry, hentry, rfl⟩ := Option.map_eq_some_iff.mp h
  exact ⟨entry, List.mem_of_find?_eq_some hentry, rfl⟩

theorem of_itemWithValue?_eq_some {d : Definition} {value : Int64} {item : Item}
    (h : d.itemWithValue? value = some item) : ∃ entry ∈ d.entries, item = d.itemOf entry := by
  obtain ⟨entry, hentry, rfl⟩ := Option.map_eq_some_iff.mp h
  exact ⟨entry, List.mem_of_find?_eq_some hentry, rfl⟩

end Definition

/-! ## Well-formed lists -/

/-- The origins of a list are registered, and each item is an entry of one of them. -/
structure Selection.WellFormed (r : Registry) (l : Selection) : Prop where
  origins : ∀ origin ∈ l.origins, r.Registers origin
  items : ∀ item ∈ l.items, item.origin ∈ l.origins ∧ r.Declares item

namespace Selection

variable {r : Registry} {l m : Selection}

theorem wellFormed_empty : empty.WellFormed r where
  origins _ h := nomatch h
  items _ h := nomatch h

theorem wellFormed_ofItem {item : Item} (h : r.Declares item) : (ofItem item).WellFormed r where
  origins origin horigin := by
    obtain rfl := List.mem_singleton.mp horigin
    obtain ⟨d, hd, _⟩ := h
    exact ⟨d, hd⟩
  items other hother := by
    obtain rfl := List.mem_singleton.mp hother
    exact ⟨List.mem_singleton_self _, h⟩

/-- Fewer items with the same origins. -/
theorem WellFormed.subset (h : l.WellFormed r) {items : Ascending Item}
    (hsubset : ∀ item ∈ items, item ∈ l.items) : WellFormed r { l with items := items } where
  origins := h.origins
  items item hitem := h.items item (hsubset item hitem)

theorem WellFormed.union (hl : l.WellFormed r) (hm : m.WellFormed r) :
    (l.union m).WellFormed r where
  origins origin horigin := by
    rcases Ascending.mem_union.mp horigin with h | h
    · exact hl.origins origin h
    · exact hm.origins origin h
  items item hitem := by
    rcases Ascending.of_mem_foldl_insert hitem with h | h
    · exact ⟨Ascending.mem_union.mpr (.inl (hl.items item h).1), (hl.items item h).2⟩
    · exact ⟨Ascending.mem_union.mpr (.inr (hm.items item h).1), (hm.items item h).2⟩

theorem WellFormed.difference (hl : l.WellFormed r) (m : Selection) :
    (l.difference m).WellFormed r :=
  hl.subset fun _ => Ascending.mem_of_mem_filter

theorem WellFormed.intersection (hl : l.WellFormed r) (hm : m.WellFormed r) :
    (l.intersection m).WellFormed r where
  origins := (hl.union hm).origins
  items item hitem := by
    obtain ⟨horigin, hdeclares⟩ := hl.items item (Ascending.mem_of_mem_filter hitem)
    exact ⟨Ascending.mem_union.mpr (.inl horigin), hdeclares⟩

theorem WellFormed.range (hl : l.WellFormed r) (low high : Int64) :
    (l.range low high).WellFormed r :=
  hl.subset fun _ => Ascending.mem_of_mem_filter

theorem WellFormed.only (hl : l.WellFormed r) {item : Option Item}
    (hitem : ∀ i ∈ item, i ∈ l.items) : (l.only item).WellFormed r := by
  refine hl.subset fun other hother => ?_
  cases item with
  | none => cases hother
  | some item =>
      obtain rfl := List.mem_singleton.mp hother
      exact hitem other rfl

theorem WellFormed.minList (hl : l.WellFormed r) : l.minList.WellFormed r :=
  hl.only fun _ hitem => List.mem_of_head? hitem

theorem WellFormed.maxList (hl : l.WellFormed r) : l.maxList.WellFormed r :=
  hl.only fun _ hitem => List.mem_of_getLast? hitem

/-! ## Operations within the origins -/

/-- Items can be drawn from origins that are registered, and each is declared by its own. -/
theorem exists_drawable (hr : r.Built) {origins : List DefinitionId}
    (horigins : ∀ origin ∈ origins, r.Registers origin) :
    ∃ items, drawable r origins = .ok items ∧
      ∀ item ∈ items, item.origin ∈ origins ∧ r.Declares item := by
  induction origins with
  | nil => exact ⟨[], rfl, fun _ h => nomatch h⟩
  | cons origin rest ih =>
      obtain ⟨d, hd⟩ := horigins origin List.mem_cons_self
      obtain ⟨later, hlater, hitems⟩ := ih fun o ho => horigins o (List.mem_cons_of_mem _ ho)
      refine ⟨d.items ++ later, ?_, fun item hitem => ?_⟩
      · rw [drawable, Registry.require_eq_ok hd, hlater]
        rfl
      · rcases List.mem_append.mp hitem with h | h
        · obtain ⟨entry, hentry, rfl⟩ := List.mem_map.mp h
          refine ⟨?_, hr.declares (Registry.mem_of_get? hd) hentry⟩
          rw [Definition.itemOf, hr.id_eq hd]
          exact List.mem_cons_self
        · exact ⟨List.mem_cons_of_mem _ (hitems item h).1, (hitems item h).2⟩

theorem WellFormed.exists_allPossible (hr : r.Built) (hl : l.WellFormed r) :
    ∃ m, l.allPossible r = .ok m ∧ m.WellFormed r := by
  obtain ⟨items, hdraw, hitems⟩ := exists_drawable hr hl.origins
  refine ⟨{ l with items := .ofList items }, ?_, hl.origins, fun item hitem => ?_⟩
  · rw [allPossible, hdraw]
    rfl
  · exact hitems item (Ascending.mem_of_mem_ofList hitem)

theorem WellFormed.exists_inverse (hr : r.Built) (hl : l.WellFormed r) :
    ∃ m, l.inverse r = .ok m ∧ m.WellFormed r := by
  obtain ⟨all, hall, hwell⟩ := hl.exists_allPossible hr
  refine ⟨all.difference l, ?_, hwell.difference l⟩
  rw [inverse, hall]
  rfl

/-- Items that are declared can be moved, and stay in their own definitions. -/
theorem exists_shifted (hr : r.Built) (steps : Int64) {items : List Item}
    (hitems : ∀ item ∈ items, r.Declares item) :
    ∃ moved, shifted r steps items = .ok moved ∧
      ∀ item ∈ moved, (∃ old ∈ items, item.origin = old.origin) ∧ r.Declares item := by
  induction items with
  | nil => exact ⟨[], rfl, fun _ h => nomatch h⟩
  | cons old rest ih =>
      obtain ⟨d, hd, _⟩ := hitems old List.mem_cons_self
      obtain ⟨later, hlater, hmoved⟩ := ih fun i hi => hitems i (List.mem_cons_of_mem _ hi)
      refine ⟨(d.itemWithValue? (saturatingAdd old.value steps)).toList ++ later, ?_,
        fun item hitem => ?_⟩
      · rw [shifted, Registry.require_eq_ok hd, hlater]
        rfl
      · rcases List.mem_append.mp hitem with h | h
        · obtain ⟨entry, hentry, rfl⟩ :=
            Definition.of_itemWithValue?_eq_some (Option.mem_toList.mp h)
          refine ⟨⟨old, List.mem_cons_self, ?_⟩, hr.declares (Registry.mem_of_get? hd) hentry⟩
          exact hr.id_eq hd
        · obtain ⟨⟨other, hother, horigin⟩, hdeclares⟩ := hmoved item h
          exact ⟨⟨other, List.mem_cons_of_mem _ hother, horigin⟩, hdeclares⟩

theorem WellFormed.exists_shift (hr : r.Built) (hl : l.WellFormed r) (steps : Int64) :
    ∃ m, l.shift steps r = .ok m ∧ m.WellFormed r := by
  obtain ⟨moved, hshift, hmoved⟩ := exists_shifted hr steps fun item h => (hl.items item h).2
  refine ⟨{ l with items := .ofList moved }, ?_, hl.origins, fun item hitem => ?_⟩
  · rw [shift, hshift]
    rfl
  · obtain ⟨⟨old, hold, horigin⟩, hdeclares⟩ := hmoved item (Ascending.mem_of_mem_ofList hitem)
    refine ⟨?_, hdeclares⟩
    rw [horigin]
    exact (hl.items old hold).1

end Selection

/-! ## Names of items -/

namespace Registry

variable {r : Registry}

theorem Built.declares_of_findItem? (hr : r.Built) {reference : String} {item : Item}
    (h : r.findItem? reference = some item) : r.Declares item := by
  unfold findItem? at h
  dsimp only at h
  split at h
  · obtain ⟨d, hd, hitem⟩ := Option.bind_eq_some_iff.mp h
    obtain ⟨entry, hentry, rfl⟩ := Definition.of_item?_eq_some hitem
    exact hr.declares (List.mem_of_find?_eq_some hd) hentry
  · obtain ⟨d, hd, hitem⟩ := List.exists_of_findSome?_eq_some h
    obtain ⟨entry, hentry, rfl⟩ := Definition.of_item?_eq_some hitem
    exact hr.declares hd hentry

theorem Built.wellFormed_of_itemByValue (hr : r.Built) {name : String} {value : Int64}
    {l : Selection} (h : r.itemByValue name value = .ok l) : l.WellFormed r := by
  unfold itemByValue at h
  split at h
  · cases h
  · next d hd =>
      have hmem : d ∈ r.definitions := List.mem_of_find?_eq_some hd
      cases h
      split
      · next item hitem =>
          obtain ⟨entry, hentry, rfl⟩ := Definition.of_itemWithValue?_eq_some hitem
          exact Selection.wellFormed_ofItem (hr.declares hmem hentry)
      · refine ⟨fun origin horigin => ?_, fun _ hitem => nomatch hitem⟩
        obtain rfl := List.mem_singleton.mp horigin
        exact ⟨d, hr.get?_of_mem hmem⟩

end Registry

/-! ## Operators -/

/-- A value that is a well-formed list if it is a list. -/
def Value.WellFormed (r : Registry) : Value → Prop
  | .list l => l.WellFormed r
  | _ => True

/-- An operation on values comes out well, or it fails for another reason than that a
definition is missing. -/
def ValueFault.Spares {α : Type} (good : α → Prop) : Except ValueFault α → Prop
  | .ok a => good a
  | .error fault => ∀ id, fault ≠ .unknownDefinition id

section Operators

open ValueFault

variable {r : Registry}

/-- What is known to succeed well. -/
theorem ValueFault.spares_of_exists {α β : Type} {good : α → Prop} {good' : β → Prop}
    {x : Except ValueFault α} {f : α → β} (h : ∃ a, x = .ok a ∧ good a)
    (hf : ∀ a, good a → good' (f a)) : Spares good' (do return f (← x)) := by
  obtain ⟨a, rfl, ha⟩ := h
  exact hf a ha

namespace Binary

variable (op : Binary)

theorem wellFormed_compared (order : Option Ordering) :
    ∀ v ∈ op.compared order, v.WellFormed r := by
  intro v hv
  obtain ⟨b, _, rfl⟩ := Option.map_eq_some_iff.mp hv
  trivial

theorem spares_applyInt (a b : Int64) :
    Spares (fun answer => ∀ v ∈ answer, v.WellFormed r) (op.applyInt a b) := by
  cases op with
  | divide | modulo =>
      unfold applyInt
      dsimp only
      split
      · exact fun id h => nomatch h
      · rintro v ⟨⟩
        trivial
  | _ =>
      rintro v ⟨⟩
      try trivial

theorem wellFormed_applyFloat (x y : Float) : ∀ v ∈ op.applyFloat x y, v.WellFormed r := by
  cases op <;> rintro v ⟨⟩ <;> trivial

theorem spares_applyNumeric (m n : Numeric) :
    Spares (fun answer => ∀ v ∈ answer, v.WellFormed r) (op.applyNumeric m n) := by
  unfold applyNumeric
  split
  · exact op.wellFormed_compared _
  · split
    · exact op.spares_applyInt _ _
    · exact op.wellFormed_applyFloat _ _

theorem wellFormed_applyString (s t : String) : ∀ v ∈ op.applyString s t, v.WellFormed r := by
  unfold applyString
  split
  · rintro v ⟨⟩
    trivial
  · rintro v ⟨⟩
    trivial
  · rintro v ⟨⟩
    trivial
  · exact op.wellFormed_compared _

theorem wellFormed_applySpelled (s : String) (order : Numeric → Option Ordering) :
    ∀ v ∈ op.applySpelled s order, v.WellFormed r := by
  unfold applySpelled
  split
  · split
    · rintro v ⟨⟩
      trivial
    · exact op.wellFormed_compared _
  · rintro v ⟨⟩

theorem wellFormed_applyList {l m : Selection} (hl : l.WellFormed r) (hm : m.WellFormed r) :
    ∀ v ∈ op.applyList l m, v.WellFormed r := by
  cases op with
  | add =>
      rintro v ⟨⟩
      exact hl.union hm
  | subtract =>
      rintro v ⟨⟩
      exact hl.difference m
  | bitXor =>
      rintro v ⟨⟩
      exact hl.intersection hm
  | _ =>
      rintro v ⟨⟩
      try trivial

theorem spares_applyListNumeric (hr : r.Built) {l : Selection} (hl : l.WellFormed r)
    (n : Numeric) :
    Spares (fun answer => ∀ v ∈ answer, v.WellFormed r) (op.applyListNumeric l n r) := by
  unfold applyListNumeric
  split
  · refine spares_of_exists (hl.exists_shift hr _) fun m hm v hv => ?_
    cases hv
    exact hm
  · refine spares_of_exists (hl.exists_shift hr _) fun m hm v hv => ?_
    cases hv
    exact hm
  · exact op.wellFormed_compared _

theorem spares_applyKinds (hr : r.Built) {v w : Value} (hv : v.WellFormed r)
    (hw : w.WellFormed r) :
    Spares (fun answer => ∀ v ∈ answer, v.WellFormed r) (op.applyKinds v w r) := by
  have hnone : Spares (fun answer => ∀ v ∈ answer, v.WellFormed r)
      (.ok none : Except ValueFault (Option Value)) := fun _ h => nomatch h
  unfold applyKinds
  split
  · exact op.wellFormed_applyList hv hw
  · split
    · exact op.spares_applyListNumeric hr hv _
    · exact hnone
  · split
    · exact op.wellFormed_compared _
    · exact hnone
  · exact op.wellFormed_applyString _ _
  · split
    · exact op.wellFormed_applySpelled _ _
    · exact hnone
  · split
    · exact op.wellFormed_applySpelled _ _
    · exact hnone
  · split
    · exact op.spares_applyNumeric _ _
    · exact hnone

theorem spares_apply (hr : r.Built) {v w : Value} (hv : v.WellFormed r) (hw : w.WellFormed r) :
    Spares (fun answer => ∀ v ∈ answer, v.WellFormed r) (op.apply v w r) := by
  unfold apply
  split
  · rintro v ⟨⟩
    trivial
  · rintro v ⟨⟩
    trivial
  · exact op.spares_applyKinds hr hv hw

end Binary

theorem Unary.spares_apply (op : Unary) (hr : r.Built) {v : Value} (hv : v.WellFormed r) :
    Spares (fun answer => ∀ v ∈ answer, v.WellFormed r) (op.apply v r) := by
  unfold apply
  split
  case h_8 | h_12 =>
    refine spares_of_exists (Selection.WellFormed.exists_shift hr hv _) fun m hm w hw => ?_
    cases hw
    exact hm
  all_goals
    rintro w ⟨⟩
    try trivial

end Operators

end Skein
