import Mathlib
import Skein.Value.Apply

set_option autoImplicit false

/-!
# Value: shifts and quotients of integers

What shifting and dividing do, said in integers without bounds.  A shift to the left is a product
with a power of two, kept to 64 bits, and a shift to the right is the quotient by that power,
rounded down; this goes on beyond 63 places, where no bits are left to move.  A quotient and its
remainder give back the dividend.  The one quotient that does not fit in 64 bits wraps around,
and the law holds up to that.
-/

namespace Skein

namespace Binary

/-! ## Shifts -/

theorem isShiftAmount_iff (b : Int64) :
    isShiftAmount b = true ↔ 0 ≤ b.toInt ∧ b.toInt < 64 := by
  have hzero : (0 : Int64).toInt = 0 := by decide
  have hwidth : (64 : Int64).toInt = 64 := by decide
  rw [isShiftAmount, Bool.and_eq_true, decide_eq_true_iff, decide_eq_true_iff,
    Int64.le_iff_toInt_le, Int64.lt_iff_toInt_lt, hzero, hwidth]

/-- Amounts are taken modulo 64, which changes nothing in a shift amount. -/
theorem toNat_smod {b : Int64} (h : isShiftAmount b = true) :
    (b.toBitVec.smod 64).toNat = b.toInt.toNat := by
  obtain ⟨hpos, hlt⟩ := (isShiftAmount_iff b).mp h
  have hsame : b.toBitVec.smod 64 = b.toBitVec := by
    apply BitVec.eq_of_toInt_eq
    have hwidth : (64 : BitVec 64).toInt = 64 := by decide
    rw [BitVec.toInt_smod, Int64.toInt_toBitVec, hwidth, Int.fmod_eq_of_lt hpos hlt]
  have hcases := BitVec.toInt_eq_toNat_cond b.toBitVec
  rw [Int64.toInt_toBitVec] at hcases
  rw [hsame]
  split at hcases <;> omega

/-- A power of two that does not fit in 64 bits. -/
theorem two_pow_dvd {n : Nat} (h : 64 ≤ n) : ((2 ^ 64 : Nat) : Int) ∣ 2 ^ n := by
  have hdvd : (2 : Int) ^ 64 ∣ 2 ^ n := pow_dvd_pow 2 h
  simpa using hdvd

theorem two_pow_le {n : Nat} (h : 64 ≤ n) : (2 : Int) ^ 64 ≤ 2 ^ n :=
  pow_le_pow_right₀ (by decide) h

theorem toInt_shiftedLeft (a : Int64) {b : Int64} (hb : 0 ≤ b.toInt) :
    (shiftedLeft a b).toInt = (a.toInt * 2 ^ b.toInt.toNat).bmod (2 ^ 64) := by
  unfold shiftedLeft
  split
  · next hamount =>
    have hshift : (a <<< b).toInt =
        ((a.toBitVec.toNat : Int) * 2 ^ b.toInt.toNat).bmod (2 ^ 64) := by
      rw [← Int64.toInt_toBitVec, Int64.toBitVec_shiftLeft, BitVec.shiftLeft_eq',
        toNat_smod hamount, BitVec.toInt_shiftLeft, Nat.shiftLeft_eq]
      push_cast
      rfl
    rw [hshift, ← Int.bmod_mul_bmod, ← BitVec.toInt_eq_toNat_bmod, Int64.toInt_toBitVec]
  · next hamount =>
    rw [isShiftAmount_iff] at hamount
    have hdvd := two_pow_dvd (show 64 ≤ b.toInt.toNat by omega)
    rw [Int.bmod_eq_zero_of_dvd (Dvd.dvd.mul_left hdvd a.toInt)]
    rfl

theorem toInt_shiftedRight (a : Int64) {b : Int64} (hb : 0 ≤ b.toInt) :
    (shiftedRight a b).toInt = a.toInt.fdiv (2 ^ b.toInt.toNat) := by
  rw [Int.fdiv_eq_ediv_of_nonneg _ (by positivity)]
  unfold shiftedRight
  split
  · next hamount =>
    rw [← Int64.toInt_toBitVec, Int64.toBitVec_shiftRight, BitVec.sshiftRight_eq',
      toNat_smod hamount, BitVec.toInt_sshiftRight, Int.shiftRight_eq_div_pow,
      Int64.toInt_toBitVec]
    push_cast
    rfl
  · next hamount =>
    rw [isShiftAmount_iff] at hamount
    have hle := two_pow_le (show 64 ≤ b.toInt.toNat by omega)
    have hleast := a.le_toInt
    have hlargest := a.toInt_lt
    split
    · next hneg =>
      rw [Int64.lt_iff_toInt_lt] at hneg
      rw [Int.ediv_eq_neg_one_of_neg_of_le hneg (by omega)]
      rfl
    · next hnonneg =>
      rw [Int64.lt_iff_toInt_lt] at hnonneg
      rw [Int.ediv_eq_zero_of_lt (by simpa using hnonneg) (by omega)]
      rfl

theorem shifted_of_neg (a : Int64) {b : Int64} (hb : b.toInt < 0) :
    shiftedLeft a b = 0 ∧ shiftedRight a b = if a < 0 then -1 else 0 := by
  have hamount : ¬isShiftAmount b = true := by
    rw [isShiftAmount_iff]
    omega
  rw [shiftedLeft, shiftedRight, if_neg hamount, if_neg hamount]
  exact ⟨rfl, rfl⟩

/-! ## Quotients and remainders -/

theorem modEq_quotient (a b : Int64) :
    a.toInt ≡ (a / b).toInt * b.toInt + (a % b).toInt [ZMOD 2 ^ 64] := by
  have hquotient : (a / b).toInt ≡ a.toInt.tdiv b.toInt [ZMOD 2 ^ 64] := by
    rw [Int64.toInt_div]
    exact Int.bmod_emod
  calc a.toInt = a.toInt.tdiv b.toInt * b.toInt + a.toInt.tmod b.toInt := by
        rw [mul_comm, Int.mul_tdiv_add_tmod]
    _ ≡ (a / b).toInt * b.toInt + a.toInt.tmod b.toInt [ZMOD 2 ^ 64] :=
        ((hquotient.mul_right b.toInt).add_right _).symm
    _ = (a / b).toInt * b.toInt + (a % b).toInt := by rw [Int64.toInt_mod]

/-- Only one quotient does not fit in 64 bits. -/
theorem wraps_or_eq_quotient (a b : Int64) :
    (a = Int64.minValue ∧ b = -1 ∧ a / b = Int64.minValue ∧ a % b = 0) ∨
      a.toInt = (a / b).toInt * b.toInt + (a % b).toInt := by
  by_cases hwraps : a = Int64.minValue ∧ b = -1
  · obtain ⟨rfl, rfl⟩ := hwraps
    exact .inl ⟨rfl, rfl, by decide, by decide⟩
  · have hquotient : (a / b).toInt = a.toInt.tdiv b.toInt := by
      rcases not_and_or.mp hwraps with hleft | hright
      · exact Int64.toInt_div_of_ne_left a b hleft
      · exact Int64.toInt_div_of_ne_right a b hright
    right
    rw [hquotient, Int64.toInt_mod, mul_comm, Int.mul_tdiv_add_tmod]

theorem abs_remainder_lt (a : Int64) {b : Int64} (hb : b ≠ 0) : |(a % b).toInt| < |b.toInt| := by
  have hpos : 0 < b.toInt.natAbs := by
    rw [Int.natAbs_pos]
    exact fun hzero => hb (Int64.toInt_inj.mp hzero)
  rw [Int64.toInt_mod, Int.abs_eq_natAbs, Int.abs_eq_natAbs, Int.natAbs_tmod]
  exact_mod_cast Nat.mod_lt _ hpos

theorem sign_remainder (a b : Int64) :
    (a % b).toInt = 0 ∨ (a % b).toInt.sign = a.toInt.sign := by
  rw [Int64.toInt_mod, ← Int.sign_eq_zero_iff_zero, Int.sign_tmod]
  split
  · exact .inl rfl
  · exact .inr rfl

/-! ## Operators on values -/

/-- Truth values and integers meet as integers. -/
theorem apply_integers {op : Binary} (hlogical : op.isLogical = false)
    (hcompare : op.isComparison = false) {lhs rhs : Value} {a b : Int64}
    (hlhs : lhs.numeric? = some (.int a)) (hrhs : rhs.numeric? = some (.int b)) (r : Registry) :
    op.apply lhs rhs r = op.applyInt a b := by
  have hnumeric : op.applyKinds lhs rhs r = op.applyNumeric (.int a) (.int b) := by
    cases lhs <;> cases hlhs <;> cases rhs <;> cases hrhs <;> rfl
  have happly : op.apply lhs rhs r = op.applyKinds lhs rhs r := by
    cases op with
    | and | or => cases hlogical
    | _ => rfl
  rw [happly, hnumeric, applyNumeric, if_neg (by rw [hcompare]; exact Bool.false_ne_true)]

/-- Shifts and quotients of integers, truth values among them.  Shifting to the left by any number
of places that is not negative multiplies by a power of two and keeps 64 bits, shifting to the
right divides by it and rounds down; shifting by less than zero places moves every bit out.  A
quotient and its remainder give back the dividend, exactly but for the one quotient that wraps
around, and the remainder is below the divisor in size and has the sign of the dividend. -/
theorem integer_laws {lhs rhs : Value} {a b : Int64} (hlhs : lhs.numeric? = some (.int a))
    (hrhs : rhs.numeric? = some (.int b)) (r : Registry) :
    (0 ≤ b.toInt →
      (∃ c : Int64, shiftLeft.apply lhs rhs r = .ok (some (.int c)) ∧
        c.toInt = (a.toInt * 2 ^ b.toInt.toNat).bmod (2 ^ 64)) ∧
      ∃ c : Int64, shiftRight.apply lhs rhs r = .ok (some (.int c)) ∧
        c.toInt = a.toInt.fdiv (2 ^ b.toInt.toNat)) ∧
      (b.toInt < 0 →
        shiftLeft.apply lhs rhs r = .ok (some (.int 0)) ∧
        shiftRight.apply lhs rhs r = .ok (some (.int (if a < 0 then -1 else 0)))) ∧
      (b ≠ 0 → ∃ quotient remainder : Int64,
        divide.apply lhs rhs r = .ok (some (.int quotient)) ∧
        modulo.apply lhs rhs r = .ok (some (.int remainder)) ∧
        a.toInt ≡ quotient.toInt * b.toInt + remainder.toInt [ZMOD 2 ^ 64] ∧
        ((a = Int64.minValue ∧ b = -1 ∧ quotient = Int64.minValue ∧ remainder = 0) ∨
          a.toInt = quotient.toInt * b.toInt + remainder.toInt) ∧
        |remainder.toInt| < |b.toInt| ∧
        (remainder.toInt = 0 ∨ remainder.toInt.sign = a.toInt.sign)) := by
  have hleft : shiftLeft.apply lhs rhs r = .ok (some (.int (shiftedLeft a b))) :=
    apply_integers rfl rfl hlhs hrhs r
  have hright : shiftRight.apply lhs rhs r = .ok (some (.int (shiftedRight a b))) :=
    apply_integers rfl rfl hlhs hrhs r
  refine ⟨fun hb => ?_, fun hb => ?_, fun hb => ?_⟩
  · exact ⟨⟨_, hleft, toInt_shiftedLeft a hb⟩, _, hright, toInt_shiftedRight a hb⟩
  · obtain ⟨hzero, hsign⟩ := shifted_of_neg a hb
    rw [hleft, hright, hzero, hsign]
    exact ⟨rfl, rfl⟩
  · have hdivide : divide.apply lhs rhs r = .ok (some (.int (a / b))) :=
      (apply_integers rfl rfl hlhs hrhs r).trans (if_neg hb)
    have hmodulo : modulo.apply lhs rhs r = .ok (some (.int (a % b))) :=
      (apply_integers rfl rfl hlhs hrhs r).trans (if_neg hb)
    exact ⟨_, _, hdivide, hmodulo, modEq_quotient a b, wraps_or_eq_quotient a b,
      abs_remainder_lt a hb, sign_remainder a b⟩

/-- The least integer is divided by minus one, true is shifted by as many places as there are
bits, and minus five by more. -/
theorem integer_laws_at_edges :
    (∃ quotient remainder : Int64,
      divide.apply (.int Int64.minValue) (.int (-1)) {} = .ok (some (.int quotient)) ∧
      modulo.apply (.int Int64.minValue) (.int (-1)) {} = .ok (some (.int remainder)) ∧
      Int64.minValue.toInt ≡ quotient.toInt * (-1 : Int64).toInt + remainder.toInt [ZMOD 2 ^ 64] ∧
      |remainder.toInt| < |(-1 : Int64).toInt|) ∧
      (∃ c : Int64, shiftLeft.apply (.bool true) (.int 64) {} = .ok (some (.int c)) ∧
        c.toInt = 0) ∧
      ∃ c : Int64, shiftRight.apply (.int (-5)) (.int 100) {} = .ok (some (.int c)) ∧
        c.toInt = -1 := by
  refine ⟨?_, ?_, ?_⟩
  · have hlaws := @integer_laws (.int Int64.minValue) (.int (-1)) _ _ rfl rfl {}
    obtain ⟨quotient, remainder, hdivide, hmodulo, hlaw, -, hsize, -⟩ := hlaws.2.2 (by decide)
    exact ⟨quotient, remainder, hdivide, hmodulo, hlaw, hsize⟩
  · have hlaws := @integer_laws (.bool true) (.int 64) 1 64 rfl rfl {}
    obtain ⟨⟨c, hshift, hc⟩, -⟩ := hlaws.1 (by decide)
    exact ⟨c, hshift, hc.trans (by decide)⟩
  · have hlaws := @integer_laws (.int (-5)) (.int 100) _ _ rfl rfl {}
    obtain ⟨-, c, hshift, hc⟩ := hlaws.1 (by decide)
    exact ⟨c, hshift, hc.trans (by decide)⟩

end Binary

end Skein
