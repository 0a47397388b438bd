import Skein.Value.Apply

set_option autoImplicit false

/-!
# Value: comparisons with exchanged operands

Values of different kinds are compared in different ways: lists by their bounds, a list with a
number by its largest value, a text with a number by the number that it spells, numbers as integers
or as doubles.  Each way is written out for the left and for the right operand, and all of them come
to one standing of the two values, which does not depend on the operator.  Exchanging the operands
turns the standing around, and a comparison and its converse read the same off both.
-/

namespace Skein

/-! ## Doubles -/

section Doubles

open Float.Model (UnpackedFloat)

theorem unpacked_compare_exchanged (a b : UnpackedFloat) :
    b.compare a = (a.compare b).map Ordering.swap := by
  cases a with
  | notANumber => cases b <;> rfl
  | infinity s =>
      cases b with
      | notANumber => rfl
      | infinity t => cases s <;> cases t <;> rfl
      | zero _ | finite _ _ _ _ => cases s <;> rfl
  | zero s =>
      cases b with
      | notANumber | zero _ => rfl
      | infinity t | finite t _ _ _ => cases t <;> rfl
  | finite s m e hm =>
      cases b with
      | notANumber => rfl
      | zero _ => cases s <;> rfl
      | infinity t => cases t <;> rfl
      | finite t n f hn =>
          -- Numbers of one sign compare by their exponents first, and then by their digits.
          have hdigits : (compare f e).then (compare n m) =
              ((compare e f).then (compare m n)).swap := by
            rw [Ordering.swap_then, ← Std.OrientedOrd.eq_swap, ← Std.OrientedOrd.eq_swap]
          cases s <;> cases t
          · exact congrArg some (congrArg Ordering.swap hdigits)
          · rfl
          · rfl
          · exact congrArg some hdigits

theorem floatOrder?_eq_compare (x y : Float) :
    floatOrder? x y = x.toModel.unpack.compare y.toModel.unpack := by
  have hlt (u v : Float) : u < v ↔ u.toModel.unpack.compare v.toModel.unpack = some .lt :=
    decide_eq_true_iff.trans beq_iff_eq
  have hbeq : (x == y) = (x.toModel.unpack.compare y.toModel.unpack == some .eq) := rfl
  have hexchanged := unpacked_compare_exchanged x.toModel.unpack y.toModel.unpack
  simp only [floatOrder?, hlt, hbeq, hexchanged]
  cases x.toModel.unpack.compare y.toModel.unpack with
  | none => rfl
  | some order => cases order <;> rfl

/-- Exchanged doubles compare the other way round, or not at all as before. -/
theorem floatOrder?_exchanged (x y : Float) :
    floatOrder? y x = (floatOrder? x y).map Ordering.swap := by
  rw [floatOrder?_eq_compare, floatOrder?_eq_compare, unpacked_compare_exchanged]

end Doubles

namespace Binary

theorem numericOrder?_exchanged (m n : Numeric) :
    numericOrder? n m = (numericOrder? m n).map Ordering.swap := by
  cases m with
  | int a =>
      cases n with
      | int b => exact congrArg some Std.OrientedOrd.eq_swap
      | float y => exact floatOrder?_exchanged _ _
  | float x => cases n <;> exact floatOrder?_exchanged _ _

/-! ## Converses -/

/-- The comparison that says of exchanged operands what the operator says of two operands; only
comparisons by order have one. -/
def converse? : Binary → Option Binary
  | equal => some equal
  | notEqual => some notEqual
  | less => some greater
  | greater => some less
  | lessEq => some greaterEq
  | greaterEq => some lessEq
  | _ => none

variable {op op' : Binary}

theorem converse?_symm (h : op.converse? = some op') : op'.converse? = some op := by
  cases op <;> cases h <;> rfl

theorem compared_exchanged (h : op.converse? = some op') (order : Option Ordering) :
    op'.compared (order.map Ordering.swap) = op.compared order := by
  cases order with
  | none => rfl
  | some order => cases op <;> cases h <;> cases order <;> rfl

theorem applyList_exchanged (h : op.converse? = some op') (l m : Selection) :
    op'.applyList m l = op.applyList l m := by
  have hsame : m.sameItems l = l.sameItems m := decide_eq_decide.mpr eq_comm
  have habove (l m : Selection) : m.above l = l.below m := by
    unfold Selection.above Selection.below
    cases m.minItem? <;> cases l.maxItem? <;> rfl
  have hatLeast (l m : Selection) : m.atLeast l = l.atMost m := by
    unfold Selection.atLeast Selection.atMost
    cases m.bounds? with
    | none => cases l.bounds? <;> rfl
    | some mine =>
        cases l.bounds? with
        | none => rfl
        | some other => exact Bool.and_comm _ _
  cases op with
  | equal =>
      cases h
      exact congrArg (fun t => some (Value.bool t)) hsame
  | notEqual =>
      cases h
      exact congrArg (fun t => some (Value.bool !t)) hsame
  | less =>
      cases h
      exact congrArg (fun t => some (Value.bool t)) (habove l m)
  | greater =>
      cases h
      exact congrArg (fun t => some (Value.bool t)) (habove m l).symm
  | lessEq =>
      cases h
      exact congrArg (fun t => some (Value.bool t)) (hatLeast l m)
  | greaterEq =>
      cases h
      exact congrArg (fun t => some (Value.bool t)) (hatLeast m l).symm
  | _ => cases h

end Binary

/-! ## How two values stand to one another -/

/-- How two values stand to one another, as far as comparisons can tell. -/
inductive Standing where
  /-- They have an order, or none: not-a-number, and kinds that are not compared. -/
  | ordered (order : Option Ordering)
  /-- A number and a text that spells none. -/
  | apart
  | lists (l m : Selection)

namespace Standing

/-- How they stand when they are exchanged. -/
def swap : Standing → Standing
  | ordered order => ordered (order.map Ordering.swap)
  | apart => apart
  | lists l m => lists m l

theorem swap_swap (standing : Standing) : standing.swap.swap = standing := by
  cases standing with
  | ordered order =>
      cases order with
      | none => rfl
      | some order => cases order <;> rfl
  | apart | lists _ _ => rfl

/-- What a comparison says of values that stand so. -/
def answer (op : Binary) : Standing → Option Value
  | ordered order => op.compared order
  | apart => some (.bool (op = .notEqual))
  | lists l m => op.applyList l m

theorem answer_swap {op op' : Binary} (h : op.converse? = some op') (standing : Standing) :
    standing.swap.answer op' = standing.answer op := by
  cases standing with
  | ordered order => exact Binary.compared_exchanged h order
  | apart => cases op <;> cases h <;> rfl
  | lists l m => exact Binary.applyList_exchanged h l m

/-- What equality says is a truth value or nothing, and inequality says the opposite. -/
theorem exists_answer_equal (standing : Standing) :
    ∃ answer : Option Bool, standing.answer .equal = answer.map .bool ∧
      standing.answer .notEqual = answer.map fun t => .bool !t := by
  cases standing with
  | ordered order =>
      cases order with
      | none => exact ⟨none, rfl, rfl⟩
      | some order => cases order <;> exact ⟨some _, rfl, rfl⟩
  | apart => exact ⟨some false, rfl, rfl⟩
  | lists l m => exact ⟨some (l.sameItems m), rfl, rfl⟩

end Standing

namespace Value

variable {r : Registry} {v w : Value} {m n : Numeric} {op op' : Binary}

/-- Two values stand to one another in a way: comparisons of them say so, and comparisons of the
exchanged values say that they stand the other way round. -/
structure Stands (r : Registry) (v w : Value) (standing : Standing) : Prop where
  apply_eq : ∀ {op op' : Binary}, op.converse? = some op' →
    op.apply v w r = .ok (standing.answer op) ∧ op'.apply w v r = .ok (standing.swap.answer op')

theorem Stands.symm {standing : Standing} (h : Stands r v w standing) :
    Stands r w v standing.swap where
  apply_eq {op op'} hop := by
    obtain ⟨hback, hfront⟩ := h.apply_eq (Binary.converse?_symm hop)
    rw [standing.swap_swap]
    exact ⟨hfront, hback⟩

/-! ### The ways to compare -/

theorem apply_of_converse (h : op.converse? = some op') (v w : Value) (r : Registry) :
    op.apply v w r = op.applyKinds v w r := by
  cases op <;> cases h <;> rfl

theorem stands_lists (l m : Selection) : Stands r (.list l) (.list m) (.lists l m) where
  apply_eq h := ⟨apply_of_converse h _ _ r, apply_of_converse (Binary.converse?_symm h) _ _ r⟩

theorem stands_texts (s t : String) :
    Stands r (.string s) (.string t) (.ordered (some (compare s t))) where
  apply_eq {op op'} h := by
    have hexchanged : compare t s = (compare s t).swap := Std.OrientedOrd.eq_swap
    rw [apply_of_converse h, apply_of_converse (Binary.converse?_symm h)]
    show Except.ok (op.applyString s t) = _ ∧ Except.ok (op'.applyString t s) =
      Except.ok (op'.compared (some (compare s t).swap))
    rw [← hexchanged]
    cases op <;> cases h <;> exact ⟨rfl, rfl⟩

theorem stands_list_text (l : Selection) (s : String) :
    Stands r (.list l) (.string s) (.ordered none) where
  apply_eq h := by
    rw [apply_of_converse h, apply_of_converse (Binary.converse?_symm h)]
    exact ⟨rfl, rfl⟩

/-- A list is compared with a number by its value. -/
theorem stands_list_number (l : Selection) (hv : v.numeric? = some n) :
    Stands r (.list l) v (.ordered (floatOrder? l.value.toFloat n.toFloat)) where
  apply_eq {op op'} h := by
    rw [apply_of_converse h, apply_of_converse (Binary.converse?_symm h)]
    have hleft : op.applyKinds (.list l) v r = op.applyListNumeric l n r := by
      cases v <;> cases hv <;> rfl
    have hright : op'.applyKinds v (.list l) r =
        .ok (op'.compared (floatOrder? n.toFloat l.value.toFloat)) := by
      cases v <;> cases hv <;> rfl
    rw [hleft, hright, floatOrder?_exchanged l.value.toFloat]
    refine ⟨?_, rfl⟩
    cases op <;> cases h <;> rfl

theorem applyNumeric_of_converse (h : op.converse? = some op') (m n : Numeric) :
    op.applyNumeric m n = .ok (op.compared (Binary.numericOrder? m n)) := by
  cases op <;> cases h <;> rfl

theorem stands_numbers (hv : v.numeric? = some m) (hw : w.numeric? = some n) :
    Stands r v w (.ordered (Binary.numericOrder? m n)) where
  apply_eq {op op'} h := by
    rw [apply_of_converse h, apply_of_converse (Binary.converse?_symm h)]
    have hleft : op.applyKinds v w r = op.applyNumeric m n := by
      cases v <;> cases hv <;> cases w <;> cases hw <;> rfl
    have hright : op'.applyKinds w v r = op'.applyNumeric n m := by
      cases v <;> cases hv <;> cases w <;> cases hw <;> rfl
    rw [hleft, hright, applyNumeric_of_converse h,
      applyNumeric_of_converse (Binary.converse?_symm h), Binary.numericOrder?_exchanged m n]
    exact ⟨rfl, rfl⟩

/-- A text is compared with a number by the number that it spells. -/
theorem exists_stands_text_number (s : String) (hv : v.numeric? = some n) :
    ∃ standing, Stands r (.string s) v standing := by
  have hleft (op : Binary) : op.applyKinds (.string s) v r =
      .ok (op.applySpelled s fun m => Binary.numericOrder? m n) := by
    cases v <;> cases hv <;> rfl
  have hright (op : Binary) : op.applyKinds v (.string s) r =
      .ok (op.applySpelled s fun m => Binary.numericOrder? n m) := by
    cases v <;> cases hv <;> rfl
  cases hspelled : Binary.spelledNumber? s with
  | none =>
      refine ⟨.apart, ⟨fun {op op'} h => ?_⟩⟩
      rw [apply_of_converse h, apply_of_converse (Binary.converse?_symm h), hleft, hright,
        Binary.applySpelled, Binary.applySpelled, hspelled]
      cases op <;> cases h <;> exact ⟨rfl, rfl⟩
  | some m =>
      refine ⟨.ordered (Binary.numericOrder? m n), ⟨fun {op op'} h => ?_⟩⟩
      rw [apply_of_converse h, apply_of_converse (Binary.converse?_symm h), hleft, hright,
        Binary.applySpelled, Binary.applySpelled, hspelled]
      show _ ∧ _ = Except.ok (op'.compared ((Binary.numericOrder? m n).map Ordering.swap))
      rw [← Binary.numericOrder?_exchanged]
      cases op <;> cases h <;> exact ⟨rfl, rfl⟩

theorem shape (v : Value) :
    (∃ l, v = .list l) ∨ (∃ s, v = .string s) ∨ ∃ n, v.numeric? = some n := by
  cases v with
  | list l => exact .inl ⟨l, rfl⟩
  | string s => exact .inr (.inl ⟨s, rfl⟩)
  | bool _ | int _ | float _ => exact .inr (.inr ⟨_, rfl⟩)

/-- Any two values stand to one another in some way. -/
theorem exists_stands (r : Registry) (v w : Value) : ∃ standing, Stands r v w standing := by
  rcases v.shape with ⟨l, rfl⟩ | ⟨s, rfl⟩ | ⟨m, hm⟩
  · rcases w.shape with ⟨k, rfl⟩ | ⟨t, rfl⟩ | ⟨n, hn⟩
    · exact ⟨_, stands_lists l k⟩
    · exact ⟨_, stands_list_text l t⟩
    · exact ⟨_, stands_list_number l hn⟩
  · rcases w.shape with ⟨k, rfl⟩ | ⟨t, rfl⟩ | ⟨n, hn⟩
    · exact ⟨_, (stands_list_text k s).symm⟩
    · exact ⟨_, stands_texts s t⟩
    · exact exists_stands_text_number s hn
  · rcases w.shape with ⟨k, rfl⟩ | ⟨t, rfl⟩ | ⟨n, hn⟩
    · exact ⟨_, (stands_list_number k hm).symm⟩
    · obtain ⟨standing, hstands⟩ := exists_stands_text_number (r := r) t hm
      exact ⟨_, hstands.symm⟩
    · exact ⟨_, stands_numbers hm hn⟩

end Value

namespace Binary

/-! ## No failures -/

/-- A truth value or no value, and no failure. -/
def IsTruth (result : Except ValueFault (Option Value)) : Prop :=
  ∃ answer : Option Bool, result = .ok (answer.map .bool)

theorem isTruth_compared (op : Binary) (order : Option Ordering) :
    IsTruth (.ok (op.compared order)) := ⟨order.bind op.holds?, rfl⟩

section Comparison

variable {op : Binary} (hop : op.isComparison = true)

include hop

theorem isTruth_applyList (l m : Selection) : IsTruth (.ok (op.applyList l m)) := by
  cases op <;> cases hop <;> exact ⟨some _, rfl⟩

theorem isTruth_applyListNumeric (l : Selection) (n : Numeric) (r : Registry) :
    IsTruth (op.applyListNumeric l n r) := by
  unfold applyListNumeric
  split
  · cases hop
  · cases hop
  · exact op.isTruth_compared _

theorem isTruth_applyString (s t : String) : IsTruth (.ok (op.applyString s t)) := by
  unfold applyString
  split
  · cases hop
  · exact ⟨some _, rfl⟩
  · exact ⟨some _, rfl⟩
  · exact op.isTruth_compared _

theorem isTruth_applyNumeric (m n : Numeric) : IsTruth (op.applyNumeric m n) := by
  unfold applyNumeric
  rw [if_pos hop]
  exact op.isTruth_compared _

omit hop in
theorem isTruth_applySpelled (s : String) (order : Numeric → Option Ordering) :
    IsTruth (.ok (op.applySpelled s order)) := by
  unfold applySpelled
  split
  · split
    · exact ⟨some _, rfl⟩
    · exact op.isTruth_compared _
  · exact ⟨none, rfl⟩

theorem isTruth_applyKinds (v w : Value) (r : Registry) : IsTruth (op.applyKinds v w r) := by
  have hnone : IsTruth (.ok none) := ⟨none, rfl⟩
  unfold applyKinds
  split
  · exact isTruth_applyList hop _ _
  · split
    · exact isTruth_applyListNumeric hop _ _ _
    · exact hnone
  · split
    · exact op.isTruth_compared _
    · exact hnone
  · exact isTruth_applyString hop _ _
  · split
    · exact isTruth_applySpelled _ _
    · exact hnone
  · split
    · exact isTruth_applySpelled _ _
    · exact hnone
  · split
    · exact isTruth_applyNumeric hop _ _
    · exact hnone

theorem isTruth_apply (v w : Value) (r : Registry) : IsTruth (op.apply v w r) := by
  unfold apply
  split
  · cases hop
  · cases hop
  · exact isTruth_applyKinds hop v w r

end Comparison

/-- A comparison says of two values what its converse says of them exchanged, inequality says the
opposite of equality or nothing where equality says nothing, and no comparison fails. -/
theorem comparison_laws (v w : Value) (r : Registry) :
    less.apply v w r = greater.apply w v r ∧ lessEq.apply v w r = greaterEq.apply w v r ∧
      equal.apply v w r = equal.apply w v r ∧ notEqual.apply v w r = notEqual.apply w v r ∧
      (∃ answer : Option Bool, equal.apply v w r = .ok (answer.map .bool) ∧
        notEqual.apply v w r = .ok (answer.map fun t => .bool !t)) ∧
      ∀ op : Binary, op.isComparison = true →
        ∃ answer : Option Bool, op.apply v w r = .ok (answer.map .bool) := by
  obtain ⟨standing, hstands⟩ := Value.exists_stands r v w
  have hconverse {op op' : Binary} (h : op.converse? = some op') :
      op.apply v w r = op'.apply w v r := by
    rw [(hstands.apply_eq h).1, (hstands.apply_eq h).2, standing.answer_swap h]
  obtain ⟨answer, hequal, hnotEqual⟩ := standing.exists_answer_equal
  refine ⟨hconverse rfl, hconverse rfl, hconverse rfl, hconverse rfl, ⟨answer, ?_, ?_⟩,
    fun op hop => isTruth_apply hop v w r⟩
  · exact (hstands.apply_eq rfl).1.trans (congrArg Except.ok hequal)
  · exact (hstands.apply_eq rfl).1.trans (congrArg Except.ok hnotEqual)

/-- An integer is below a text that spells a larger one, and the text is above the integer; whether
the integer contains the text is no truth value and no failure either. -/
theorem comparison_laws_of_spelled :
    contains.isComparison = true ∧
      (less.apply (.int 9) (.string " 10 ") ∅).toOption = some (some (.bool true)) ∧
      (greater.apply (.string " 10 ") (.int 9) ∅).toOption = some (some (.bool true)) ∧
      ∃ answer : Option Bool,
        contains.apply (.int 9) (.string " 10 ") ∅ = .ok (answer.map .bool) := by
  have hless : (less.apply (.int 9) (.string " 10 ") ∅).toOption =
      some (some (.bool true)) := by
    decide +kernel
  obtain ⟨hconverse, _, _, _, _, htruth⟩ := comparison_laws (.int 9) (.string " 10 ") ∅
  exact ⟨rfl, hless, hconverse ▸ hless, htruth contains rfl⟩

end Binary

end Skein
