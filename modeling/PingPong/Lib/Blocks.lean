import Mathlib.Algebra.Group.Nat.Defs

/-!
# Aligned blocks

The numbers that agree from bit `m` on form a block of `2 ^ m` numbers in a row.  `first` and `last`
are its ends.  A mask with the high bits of a word set maps every number to the first of its block,
and setting the low bits gives the last.
-/

namespace Blocks

/-- The first number of the block of `2 ^ m` numbers that `n` is in. -/
def first (m n : Nat) : Nat := n / 2 ^ m * 2 ^ m

/-- The last number of the block of `2 ^ m` numbers that `n` is in. -/
def last (m n : Nat) : Nat := first m n + (2 ^ m - 1)

theorem last_eq (m n : Nat) : last m n = first m n + (2 ^ m - 1) := rfl

theorem first_le (m n : Nat) : first m n ≤ n := Nat.div_mul_le_self n (2 ^ m)

theorem le_last (m n : Nat) : n ≤ last m n := by
  have low : n % 2 ^ m < 2 ^ m := Nat.mod_lt n (Nat.two_pow_pos m)
  have parts : first m n + n % 2 ^ m = n := Nat.div_add_mod' n (2 ^ m)
  rw [last_eq]
  omega

/-- Two numbers are in one block when one is between the ends of the other's. -/
theorem first_eq_first_iff (m a n : Nat) :
    first m a = first m n ↔ first m n ≤ a ∧ a ≤ last m n := by
  constructor
  · intro same
    have upper : a ≤ last m a := le_last m a
    have lower : first m a ≤ a := first_le m a
    rw [last_eq, same] at upper
    rw [same] at lower
    exact ⟨lower, upper⟩
  · intro within
    obtain ⟨lower, upper⟩ := within
    have positive : 0 < 2 ^ m := Nat.two_pow_pos m
    have below : a < n / 2 ^ m * 2 ^ m + 2 ^ m := by
      rw [last_eq, first] at upper
      omega
    have quotient : a / 2 ^ m = n / 2 ^ m := by
      rw [Nat.div_eq_iff positive]
      exact ⟨lower, by omega⟩
    rw [first, quotient]
    rfl

/-- Below `2 ^ w` blocks end below `2 ^ w`. -/
theorem last_lt {w m n : Nat} (small : n < 2 ^ w) (le : m ≤ w) : last m n < 2 ^ w := by
  have split : 2 ^ w = 2 ^ (w - m) * 2 ^ m := by
    rw [← Nat.pow_add, Nat.sub_add_cancel le]
  have quotient : n / 2 ^ m + 1 ≤ 2 ^ (w - m) := by
    rw [Nat.succ_le_iff, Nat.div_lt_iff_lt_mul (Nat.two_pow_pos m), ← split]
    exact small
  have blocks : (n / 2 ^ m + 1) * 2 ^ m ≤ 2 ^ w := by
    rw [split]
    exact Nat.mul_le_mul_right _ quotient
  have positive : 0 < 2 ^ m := Nat.two_pow_pos m
  rw [Nat.add_mul, Nat.one_mul] at blocks
  rw [last_eq, first]
  omega

/-- The mask with all but the low `m` of `w` bits set. -/
theorem and_high {w m n : Nat} (small : n < 2 ^ w) (le : m ≤ w) :
    n &&& (2 ^ w - 2 ^ m) = first m n := by
  have mask : 2 ^ w - 2 ^ m = (2 ^ (w - m) - 1) * 2 ^ m := by
    rw [Nat.sub_mul, Nat.one_mul, ← Nat.pow_add, Nat.sub_add_cancel le]
  have low : (n &&& (2 ^ w - 2 ^ m)) % 2 ^ m = 0 := by
    rw [Nat.and_mod_two_pow, mask, Nat.mul_mod_left, Nat.and_zero]
  have high : (n &&& (2 ^ w - 2 ^ m)) / 2 ^ m = n / 2 ^ m := by
    rw [Nat.and_div_two_pow, mask, Nat.mul_div_cancel _ (Nat.two_pow_pos m),
      Nat.and_two_pow_sub_one_eq_mod]
    apply Nat.mod_eq_of_lt
    rw [Nat.div_lt_iff_lt_mul (Nat.two_pow_pos m), ← Nat.pow_add, Nat.sub_add_cancel le]
    exact small
  rw [← Nat.div_add_mod' (n &&& (2 ^ w - 2 ^ m)) (2 ^ m), low, high, Nat.add_zero]
  rfl

/-- Setting the low `m` bits of the first number of a block. -/
theorem first_or_low (m n : Nat) : first m n ||| (2 ^ m - 1) = last m n := by
  have low : 2 ^ m - 1 < 2 ^ m := Nat.sub_lt (Nat.two_pow_pos m) Nat.one_pos
  rw [last_eq, first, Nat.mul_comm, Nat.two_pow_add_eq_or_of_lt low]

end Blocks
