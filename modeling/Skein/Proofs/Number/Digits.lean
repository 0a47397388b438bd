import Skein.Number.Reading

set_option autoImplicit false

/-!
# Number: the digits of a number

A number is read from its decimal digits, which have no zero in front unless the number is zero.
-/

namespace Skein.Number

theorem digitsValue_toDigits (n : Nat) : digitsValue (Nat.toDigits 10 n) = n := by
  have hvalue : digitsValue (Nat.toDigits 10 n) = Nat.ofDigitChars 10 (Nat.toDigits 10 n) 0 := by
    simp only [digitsValue, Nat.ofDigitChars_eq_foldl, Nat.mul_comm]
  rw [hvalue, Nat.ofDigitChars_ten_toDigits]

theorem isDigit_of_mem_toDigits {n : Nat} {c : Char} (h : c ∈ Nat.toDigits 10 n) :
    c.isDigit = true :=
  Nat.isDigit_of_mem_toDigits (by decide) (by decide) h

/-- The digits of a number do not start with a zero, unless the number is zero. -/
theorem toDigits_eq_cons {n : Nat} (hn : n ≠ 0) :
    ∃ c rest, Nat.toDigits 10 n = c :: rest ∧ c ≠ '0' := by
  induction n using Nat.strongRecOn with
  | ind n ih =>
      by_cases hsmall : n < 10
      · have hdigit : ∀ d < 10, d ≠ 0 → d.digitChar ≠ '0' := by decide
        exact ⟨_, _, Nat.toDigits_of_lt_base hsmall, hdigit n hsmall hn⟩
      · obtain ⟨c, rest, hrest, hc⟩ := ih (n / 10) (by omega) (by omega)
        rw [Nat.toDigits_of_base_le (by decide) (by omega), hrest]
        exact ⟨c, _, rfl, hc⟩

theorem splitSign_toDigits (n : Nat) :
    splitSign (Nat.toDigits 10 n) = (false, Nat.toDigits 10 n) := by
  have hdigit : ∀ c ∈ Nat.toDigits 10 n, c.isDigit = true := fun _ => isDigit_of_mem_toDigits
  unfold splitSign
  split
  · next rest hrest => exact absurd (hdigit '-' (by simp [hrest])) (by decide)
  · next rest hrest => exact absurd (hdigit '+' (by simp [hrest])) (by decide)
  · rfl

/-- A word that is not negative is read from its digits. -/
theorem readInt64?_toDigits {n : Int64} (hn : 0 ≤ n.toInt) :
    readInt64? (Nat.toDigits 10 n.toInt.toNat) = some n := by
  have hall : (Nat.toDigits 10 n.toInt.toNat).all Char.isDigit = true :=
    List.all_eq_true.mpr fun _ => isDigit_of_mem_toDigits
  have hnat : readNat? (Nat.toDigits 10 n.toInt.toNat) = some n.toInt.toNat := by
    rw [readNat?, hall, digitsValue_toDigits]
    simp
  have hbounds := And.intro n.minValue_le_toInt n.toInt_le
  have hint : readInt? (Nat.toDigits 10 n.toInt.toNat) = some n.toInt := by
    rw [readInt?, splitSign_toDigits]
    dsimp only
    rw [hnat]
    exact congrArg some (Int.toNat_of_nonneg hn)
  rw [readInt64?, hint, Option.bind_some]
  unfold toInt64?
  rw [← Bool.decide_and, if_pos (decide_eq_true hbounds), Int64.ofInt_toInt]

end Skein.Number
