import Skein.Proofs.Value.Selections

set_option autoImplicit false

/-!
# Value: moving the items of a list

Adding an integer to a list moves every item within its own definition, to the first item whose
value is that much greater, and drops the items for which there is none.  The sum is taken in 64
bits and held at the end of the range where it leaves it, and so an item that should be dropped is
stranded instead, if its definition has an item at that end.

Subtracting moves by the negative.  The least integer is its own negative in 64 bits, and moves
items down where they should go up.
-/

namespace Skein

/-! ## Sums and negatives in 64 bits -/

theorem toInt_saturatingAdd (a b : Int64) :
    (saturatingAdd a b).toInt =
      max Int64.minValue.toInt (min Int64.maxValue.toInt (a.toInt + b.toInt)) := by
  have hlow : Int64.minValue.toInt = -9223372036854775808 := rfl
  have hhigh : Int64.maxValue.toInt = 9223372036854775807 := rfl
  rw [saturatingAdd, Int64.toInt_ofInt_of_le]
  · omega
  · omega

theorem toInt_neg_of_ne {a : Int64} (h : a ≠ Int64.minValue) : (-a).toInt = -a.toInt := by
  have hlow : Int64.minValue.toInt = -9223372036854775808 := rfl
  have hhigh : Int64.maxValue.toInt = 9223372036854775807 := rfl
  have hle := Int64.minValue_le_toInt a
  have hge := Int64.toInt_le a
  have hne : a.toInt ≠ Int64.minValue.toInt := fun heq => h (Int64.toInt_inj.mp heq)
  rw [Int64.toInt_neg, Int.bmod_eq_of_le]
  · omega
  · omega

/-! ## Items by integers -/

namespace Definition

variable {d : Definition} {value : Int} {x : Item}

/-- The first item whose value is an integer, which may be one that no item can have. -/
def itemAt? (d : Definition) (value : Int) : Option Item :=
  (d.entries.find? fun entry => entry.2.toInt = value).map d.itemOf

theorem itemAt?_toInt (d : Definition) (value : Int64) :
    d.itemAt? value.toInt = d.itemWithValue? value := by
  have htest : (fun entry : String × Int64 => decide (entry.2.toInt = value.toInt)) =
      fun entry => decide (entry.2 = value) := by
    funext entry
    rw [decide_eq_decide]
    exact Int64.toInt_inj
  rw [itemAt?, itemWithValue?, htest]

theorem toInt_of_itemAt? (h : d.itemAt? value = some x) : x.value.toInt = value := by
  obtain ⟨entry, hentry, rfl⟩ := Option.map_eq_some_iff.mp h
  have htest := List.find?_some hentry
  exact of_decide_eq_true htest

/-- The item at the sum of two 64-bit integers, held at the ends of the range: the one at the sum
itself, or the one at the end that the sum is beyond. -/
theorem itemWithValue?_saturatingAdd (a b : Int64) :
    d.itemWithValue? (saturatingAdd a b) = some x ↔
      d.itemAt? (a.toInt + b.toInt) = some x ∨
        a.toInt + b.toInt < Int64.minValue.toInt ∧ d.itemAt? Int64.minValue.toInt = some x ∨
        Int64.maxValue.toInt < a.toInt + b.toInt ∧ d.itemAt? Int64.maxValue.toInt = some x := by
  have hrange : Int64.minValue.toInt ≤ Int64.maxValue.toInt := by decide
  -- Beyond the range no item has the sum itself for its value.
  have hnone (hout : a.toInt + b.toInt < Int64.minValue.toInt ∨
      Int64.maxValue.toInt < a.toInt + b.toInt) : d.itemAt? (a.toInt + b.toInt) ≠ some x := by
    intro hsome
    have hvalue := toInt_of_itemAt? hsome
    have hlow := Int64.minValue_le_toInt x.value
    have hhigh := Int64.toInt_le x.value
    omega
  rw [← itemAt?_toInt, toInt_saturatingAdd]
  rcases Int.lt_or_le (a.toInt + b.toInt) Int64.minValue.toInt with hbelow | hlow
  · have hend : max Int64.minValue.toInt (min Int64.maxValue.toInt (a.toInt + b.toInt)) =
        Int64.minValue.toInt := by omega
    have hhigh : ¬Int64.maxValue.toInt < a.toInt + b.toInt := by omega
    simp only [hend, hbelow, hhigh, hnone (.inl hbelow), true_and, false_and, false_or, or_false]
  · rcases Int.lt_or_le Int64.maxValue.toInt (a.toInt + b.toInt) with habove | hhigh
    · have hend : max Int64.minValue.toInt (min Int64.maxValue.toInt (a.toInt + b.toInt)) =
          Int64.maxValue.toInt := by omega
      have hlow' : ¬a.toInt + b.toInt < Int64.minValue.toInt := by omega
      simp only [hend, habove, hlow', hnone (.inr habove), true_and, false_and, false_or]
    · have hsum : max Int64.minValue.toInt (min Int64.maxValue.toInt (a.toInt + b.toInt)) =
          a.toInt + b.toInt := by omega
      have hlow' : ¬a.toInt + b.toInt < Int64.minValue.toInt := by omega
      have hhigh' : ¬Int64.maxValue.toInt < a.toInt + b.toInt := by omega
      simp only [hsum, hlow', hhigh', false_and, or_false]

end Definition

/-! ## Where items go -/

namespace Selection

variable (r : Registry) (l : Selection)

/-- Some item of the list goes to an item if all are moved by an integer: it is the first of its
definition whose value is the sum. -/
def MovesTo (amount : Int) (x : Item) : Prop :=
  ∃ item ∈ l.items, ∃ d, r.get? item.origin = some d ∧
    d.itemAt? (item.value.toInt + amount) = some x

/-- Some item of the list would leave the range of 64 bits if all were moved by an integer, and an
item is the first of its definition at that end of the range. -/
def Strands (amount : Int) (x : Item) : Prop :=
  ∃ item ∈ l.items, ∃ d, r.get? item.origin = some d ∧
    (item.value.toInt + amount < Int64.minValue.toInt ∧
        d.itemAt? Int64.minValue.toInt = some x ∨
      Int64.maxValue.toInt < item.value.toInt + amount ∧
        d.itemAt? Int64.maxValue.toInt = some x)

variable {r l}

/-- Items of registered definitions can be moved, each by itself. -/
theorem exists_shifted_of_registers (steps : Int64) {items : List Item}
    (hitems : ∀ item ∈ items, r.Registers item.origin) :
    ∃ moved, shifted r steps items = .ok moved ∧
      ∀ x, x ∈ moved ↔ ∃ item ∈ items, ∃ d, r.get? item.origin = some d ∧
        d.itemWithValue? (saturatingAdd item.value steps) = some x := by
  induction items with
  | nil => exact ⟨[], rfl, by simp⟩
  | cons first rest ih =>
      obtain ⟨d, hd⟩ := hitems first List.mem_cons_self
      obtain ⟨later, hlater, hmem⟩ := ih fun item h => hitems item (List.mem_cons_of_mem _ h)
      refine ⟨(d.itemWithValue? (saturatingAdd first.value steps)).toList ++ later, ?_,
        fun x => ?_⟩
      · rw [shifted, Registry.require_eq_ok hd, hlater]
        rfl
      · rw [List.mem_append, Option.mem_toList, hmem]
        constructor
        · rintro (hx | ⟨item, hitem, hx⟩)
          · exact ⟨first, List.mem_cons_self, d, hd, hx⟩
          · exact ⟨item, List.mem_cons_of_mem _ hitem, hx⟩
        · rintro ⟨item, hitem, hx⟩
          rcases List.mem_cons.mp hitem with rfl | hrest
          · obtain ⟨d', hd', hx⟩ := hx
            obtain rfl := Option.some.inj (hd.symm.trans hd')
            exact .inl hx
          · exact .inr ⟨item, hrest, hx⟩

/-- The first item whose definition is not registered is where it fails. -/
theorem shifted_of_unregistered (steps : Int64) {items : List Item} {item : Item}
    (h : (items.find? fun item => (r.get? item.origin).isNone) = some item) :
    shifted r steps items = .error (.unknownDefinition item.origin) := by
  induction items with
  | nil => cases h
  | cons first rest ih =>
      rw [shifted, Registry.require]
      rw [List.find?_cons] at h
      cases hget : r.get? first.origin with
      | none =>
          rw [hget] at h
          obtain rfl := Option.some.inj h
          rfl
      | some d =>
          rw [hget] at h
          rw [ih h]
          rfl

theorem exists_shift_of_registers (steps : Int64)
    (hl : ∀ item ∈ l.items, r.Registers item.origin) :
    ∃ m, l.shift steps r = .ok m ∧ m.origins = l.origins ∧
      ∀ x, x ∈ m.items ↔ l.MovesTo r steps.toInt x ∨ l.Strands r steps.toInt x := by
  obtain ⟨moved, hshifted, hmem⟩ := exists_shifted_of_registers steps hl
  refine ⟨{ l with items := .ofList moved }, ?_, rfl, fun x => ?_⟩
  · rw [shift, hshifted]
    rfl
  · rw [Ascending.mem_ofList, hmem]
    simp only [Definition.itemWithValue?_saturatingAdd, MovesTo, Strands]
    constructor
    · rintro ⟨item, hitem, d, hd, hx | hx⟩
      · exact .inl ⟨item, hitem, d, hd, hx⟩
      · exact .inr ⟨item, hitem, d, hd, hx⟩
    · rintro (⟨item, hitem, d, hd, hx⟩ | ⟨item, hitem, d, hd, hx⟩)
      · exact ⟨item, hitem, d, hd, .inl hx⟩
      · exact ⟨item, hitem, d, hd, .inr hx⟩

end Selection

/-! ## Operators -/

/-- An operator that moves the items of a list. -/
inductive Move where
  | plus (n : Int64)
  | minus (n : Int64)
  | increment
  | decrement
  deriving DecidableEq

namespace Move

/-- The operator applied to a list. -/
def apply (move : Move) (l : Selection) (r : Registry) : Except ValueFault (Option Value) :=
  match move with
  | plus n => Binary.add.apply (.list l) (.int n) r
  | minus n => Binary.subtract.apply (.list l) (.int n) r
  | increment => Unary.increment.apply (.list l) r
  | decrement => Unary.decrement.apply (.list l) r

/-- How much greater values should become. -/
def amount : Move → Int
  | plus n => n.toInt
  | minus n => -n.toInt
  | increment => 1
  | decrement => -1

/-- How much greater values become, in 64 bits. -/
def steps : Move → Int64
  | plus n => n
  | minus n => -n
  | increment => 1
  | decrement => -1

theorem apply_eq (move : Move) (l : Selection) (r : Registry) :
    move.apply l r = (l.shift move.steps r).map fun m => some (.list m) := by
  have hreturn (steps : Int64) : (do return some (.list (← l.shift steps r))) =
      (l.shift steps r).map fun m => some (Value.list m) := by
    cases l.shift steps r <;> rfl
  cases move <;> exact hreturn _

/-- The one integer that has no negative is the one that is subtracted wrongly. -/
theorem toInt_steps {move : Move} (h : move ≠ .minus Int64.minValue) :
    move.steps.toInt = move.amount := by
  cases move with
  | plus n => rfl
  | minus n =>
      refine toInt_neg_of_ne fun hn => h ?_
      rw [hn]
  | increment => rfl
  | decrement => rfl

/-- What is moved down by the least integer, or stranded there, has another value than what should
be moved up by it. -/
theorem not_movesTo_minValue {r : Registry} {l : Selection} {x : Item}
    (h : l.MovesTo r Int64.minValue.toInt x ∨ l.Strands r Int64.minValue.toInt x) :
    ¬l.MovesTo r (-Int64.minValue.toInt) x := by
  have hlow : Int64.minValue.toInt = -9223372036854775808 := rfl
  have hhigh : Int64.maxValue.toInt = 9223372036854775807 := rfl
  -- No value reaches as far as the least integer does: down from any of them is below zero, and up
  -- from any of them is not.
  have hdown : x.value.toInt < 0 := by
    rcases h with ⟨item, _, d, _, hx⟩ | ⟨item, _, d, _, ⟨_, hx⟩ | ⟨hsum, _⟩⟩
    · have hvalue := Definition.toInt_of_itemAt? hx
      have hitem := Int64.toInt_le item.value
      omega
    · have hvalue := Definition.toInt_of_itemAt? hx
      omega
    · have hitem := Int64.toInt_le item.value
      omega
  rintro ⟨item, _, d, _, hx⟩
  have hvalue := Definition.toInt_of_itemAt? hx
  have hitem := Int64.minValue_le_toInt item.value
  omega

/-- Adding an integer to a list, subtracting one, and counting up or down fail at the first item
whose definition is not registered.  If there is none they give a list with the same origins.  Its
items are those that items move to in 64 bits, and those on which items are stranded.

These are the items that items should move to, by the integer itself, exactly if every item on which
one is stranded is also moved to.  For the least integer subtracted they are exactly if there are
none and should be none. -/
theorem items_of_apply (move : Move) (r : Registry) (l : Selection) :
    (∀ item, (l.items.toList.find? fun item => (r.get? item.origin).isNone) = some item →
      move.apply l r = .error (.unknownDefinition item.origin)) ∧
    ((∀ item ∈ l.items, r.Registers item.origin) →
      ∃ m, move.apply l r = .ok (some (.list m)) ∧ m.origins = l.origins ∧
        (∀ x, x ∈ m.items ↔
          l.MovesTo r move.steps.toInt x ∨ l.Strands r move.steps.toInt x) ∧
        (move ≠ .minus Int64.minValue → move.steps.toInt = move.amount ∧
          ((∀ x, x ∈ m.items ↔ l.MovesTo r move.amount x) ↔
            ∀ x, l.Strands r move.amount x → l.MovesTo r move.amount x)) ∧
        (move = .minus Int64.minValue →
          ((∀ x, x ∈ m.items ↔ l.MovesTo r move.amount x) ↔
            (∀ x, x ∉ m.items) ∧ ∀ x, ¬l.MovesTo r move.amount x))) := by
  rw [apply_eq]
  constructor
  · intro item hitem
    rw [Selection.shift, Selection.shifted_of_unregistered _ hitem]
    rfl
  · intro hl
    obtain ⟨m, hshift, horigins, hmem⟩ := Selection.exists_shift_of_registers move.steps hl
    refine ⟨m, by rw [hshift]; rfl, horigins, hmem, fun hmove => ?_, fun hmove => ?_⟩
    · have hsteps := toInt_steps hmove
      refine ⟨hsteps, ?_⟩
      rw [hsteps] at hmem
      constructor
      · intro hexact x hx
        exact (hexact x).mp ((hmem x).mpr (.inr hx))
      · intro hstrands x
        rw [hmem]
        exact ⟨fun hx => hx.elim id (hstrands x), .inl⟩
    · subst hmove
      have happart (x : Item) (hx : x ∈ m.items) :
          ¬l.MovesTo r (amount (.minus Int64.minValue)) x :=
        not_movesTo_minValue ((hmem x).mp hx)
      constructor
      · intro hexact
        exact ⟨fun x hx => happart x hx ((hexact x).mp hx),
          fun x hx => happart x ((hexact x).mpr hx) hx⟩
      · rintro ⟨hnone, hnowhere⟩ x
        exact ⟨fun hx => absurd hx (hnone x), fun hx => absurd hx (hnowhere x)⟩

/-- A definition with items at both ends of the range. -/
def ladder : Registry :=
  ⟨[{ id := ⟨0⟩, name := "Ladder"
      entries := [("low", Int64.minValue), ("mid", -1), ("high", Int64.maxValue - 1),
        ("top", Int64.maxValue)] }]⟩

/-- An item of that definition. -/
def rung (label : String) (value : Int64) : Item := { label, value, origin := ⟨0⟩ }

/-- The two highest rungs. -/
def upper : Selection := .ofItems [rung "high" (Int64.maxValue - 1), rung "top" Int64.maxValue]

theorem mem_upper {x : Item} :
    x ∈ upper.items ↔ x = rung "high" (Int64.maxValue - 1) ∨ x = rung "top" Int64.maxValue := by
  rw [upper, Selection.ofItems, Ascending.mem_ofList, List.mem_cons, List.mem_singleton]

/-- One step up from the two highest rungs the upper one is stranded where the lower one goes, and
the items are right. -/
theorem items_of_apply_upper :
    ∃ m, increment.apply upper ladder = .ok (some (.list m)) ∧ m.origins = upper.origins ∧
      ∀ x, x ∈ m.items ↔ upper.MovesTo ladder 1 x := by
  have hregisters : ∀ item ∈ upper.items, ladder.Registers item.origin := by
    intro item hitem
    rcases mem_upper.mp hitem with rfl | rfl <;> exact ⟨_, rfl⟩
  obtain ⟨m, happly, horigins, _, hexact, _⟩ :=
    (items_of_apply increment ladder upper).2 hregisters
  refine ⟨m, happly, horigins, (hexact (by decide)).2.mpr ?_⟩
  rintro x ⟨item, hitem, d, hd, ⟨hbelow, _⟩ | ⟨habove, hx⟩⟩
  · rcases mem_upper.mp hitem with rfl | rfl <;> exact absurd hbelow (by decide)
  · rcases mem_upper.mp hitem with rfl | rfl
    · exact absurd habove (by decide)
    · cases hd
      cases hx
      exact ⟨_, mem_upper.mpr (.inl rfl), _, rfl, rfl⟩

/-- The highest rung should be dropped one step up, and stays.  The middle one should become the
highest when the least integer is subtracted, and becomes the lowest. -/
theorem apply_at_ends :
    (plus 1).apply (.ofItem (rung "top" Int64.maxValue)) ladder =
      .ok (some (.list (.ofItem (rung "top" Int64.maxValue)))) ∧
    increment.apply (.ofItem (rung "top" Int64.maxValue)) ladder =
      .ok (some (.list (.ofItem (rung "top" Int64.maxValue)))) ∧
    (∀ x, ¬(Selection.ofItem (rung "top" Int64.maxValue)).MovesTo ladder 1 x) ∧
    (minus Int64.minValue).apply (.ofItem (rung "mid" (-1))) ladder =
      .ok (some (.list (.ofItem (rung "low" Int64.minValue)))) ∧
    (Selection.ofItem (rung "mid" (-1))).MovesTo ladder (minus Int64.minValue).amount
      (rung "top" Int64.maxValue) := by
  refine ⟨rfl, rfl, ?_, rfl, _, List.mem_singleton.mpr rfl, _, rfl, rfl⟩
  rintro x ⟨item, hitem, d, hd, hx⟩
  obtain rfl := List.mem_singleton.mp hitem
  cases hd
  exact nomatch hx

end Move

end Skein
