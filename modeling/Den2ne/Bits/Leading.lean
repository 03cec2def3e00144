import Mathlib.Algebra.Order.Ring.Int

/-!
# Leading zeros by halving

The leading zeros of a word of `w` bits are counted by masks of the highest bits: if none of the
highest `i` bits is set, they are leading zeros and the word is shifted by them, and the search
goes on with half as many. `highMask w i` is the mask, and `HasLeading w v z` says that the word
`v` has `z` leading zeros.
-/

namespace Bits

/-- The highest `i` of `w` bits. -/
def highMask (w i : ℕ) : ℕ := (2 ^ i - 1) * 2 ^ (w - i)

/-- `v` has exactly `z` leading zeros among `w` bits. -/
structure HasLeading (w v z : ℕ) : Prop where
  le : 2 ^ (w - 1 - z) ≤ v
  lt : v < 2 ^ (w - z)

variable {w v z i k m : ℕ}

theorem land_shiftLeft (v n k : ℕ) : v &&& n <<< k = (v >>> k &&& n) <<< k := by
  refine Nat.eq_of_testBit_eq fun j => ?_
  by_cases hj : k ≤ j
  · simp [Nat.testBit_shiftLeft, Nat.testBit_shiftRight, hj, Nat.add_sub_cancel' hj]
  · simp [Nat.testBit_shiftLeft, hj]

/-- A mask of `m` bits from bit `k` on. -/
theorem land_mask_eq_zero (v m k : ℕ) : v &&& (2 ^ m - 1) * 2 ^ k = 0 ↔ v / 2 ^ k % 2 ^ m = 0 := by
  rw [← Nat.shiftLeft_eq, land_shiftLeft, Nat.and_two_pow_sub_one_eq_mod,
    Nat.shiftRight_eq_div_pow, Nat.shiftLeft_eq, Nat.mul_eq_zero]
  exact or_iff_left (Nat.two_pow_pos k).ne'

/-- None of the highest `i` bits is set. -/
theorem land_highMask_eq_zero (hv : v < 2 ^ w) (hi : i ≤ w) :
    v &&& highMask w i = 0 ↔ v < 2 ^ (w - i) := by
  have hlt : v / 2 ^ (w - i) < 2 ^ i := by
    rw [Nat.div_lt_iff_lt_mul (Nat.two_pow_pos _), ← Nat.pow_add, Nat.add_sub_cancel' hi]
    exact hv
  rw [highMask, land_mask_eq_zero, Nat.mod_eq_of_lt hlt, Nat.div_eq_zero_iff]
  exact or_iff_right (Nat.two_pow_pos _).ne'

/-- The mask of twice as many bits, shifted on. -/
theorem highMask_shiftLeft (h : i + i ≤ w) :
    highMask w (i + i) <<< i % 2 ^ w = highMask w i := by
  have hsplit : 2 ^ w = 2 ^ i * 2 ^ (w - i) := by
    rw [← Nat.pow_add, Nat.add_sub_cancel' (by omega)]
  have hshift : highMask w (i + i) <<< i = (2 ^ (i + i) - 1) * 2 ^ (w - i) := by
    rw [Nat.shiftLeft_eq, highMask, Nat.mul_assoc, ← Nat.pow_add]
    exact congrArg (fun n => (2 ^ (i + i) - 1) * 2 ^ n) (by omega)
  have hpos := Nat.two_pow_pos i
  have hmod : (2 ^ (i + i) - 1) % 2 ^ i = 2 ^ i - 1 := by
    have hsq : 2 ^ (i + i) - 1 = (2 ^ i - 1) + 2 ^ i * (2 ^ i - 1) := by
      rw [Nat.pow_add, Nat.mul_sub_one]
      have hle := Nat.le_mul_of_pos_left (2 ^ i) hpos
      omega
    rw [hsq, Nat.add_mul_mod_self_left, Nat.mod_eq_of_lt (by omega)]
  rw [hshift, hsplit, Nat.mul_mod_mul_right, hmod, highMask]

/-- Leading zeros that were found before the word was shifted by them. -/
theorem HasLeading.of_shift (hpos : 0 < v) (h : HasLeading w (v * 2 ^ i) z) :
    HasLeading w v (i + z) := by
  have hz : i < w - z := by
    refine (Nat.pow_lt_pow_iff_right (by decide : 1 < 2)).1 (Nat.lt_of_le_of_lt ?_ h.lt)
    exact Nat.le_mul_of_pos_left _ hpos
  have hhigh : 2 ^ (w - z) = 2 ^ (w - (i + z)) * 2 ^ i := by
    rw [← Nat.pow_add]
    exact congrArg (2 ^ ·) (by omega)
  have hlow : 2 ^ (w - 1 - z) = 2 ^ (w - 1 - (i + z)) * 2 ^ i := by
    rw [← Nat.pow_add]
    exact congrArg (2 ^ ·) (by omega)
  constructor
  · exact Nat.le_of_mul_le_mul_right (hlow ▸ h.le) (Nat.two_pow_pos i)
  · exact Nat.lt_of_mul_lt_mul_right (a := 2 ^ i) (hhigh ▸ h.lt)

theorem HasLeading.lt_width (h : HasLeading w v z) : z < w := by
  by_contra hz
  have hlt := h.lt
  have hle := h.le
  rw [Nat.sub_eq_zero_of_le (by omega)] at hlt hle
  omega

/-- With `z` leading zeros, a number up to `v + 1` can be doubled less than `z` times within half
of the range. -/
theorem HasLeading.mul_two_pow_le_iff (h : HasLeading w v z) :
    (v + 1) * 2 ^ m ≤ 2 ^ (w - 1) ↔ m < z := by
  have hz := h.lt_width
  constructor
  · intro hle
    by_contra hm
    have hstep : 2 ^ (w - 1) = 2 ^ (w - 1 - z) * 2 ^ z := by
      rw [← Nat.pow_add]
      exact congrArg (2 ^ ·) (by omega)
    have hlarge : (2 ^ (w - 1 - z) + 1) * 2 ^ z ≤ (v + 1) * 2 ^ m :=
      Nat.mul_le_mul (Nat.succ_le_succ h.le) (Nat.pow_le_pow_right (by decide) (by omega))
    rw [Nat.add_mul, Nat.one_mul] at hlarge
    have hpos := Nat.two_pow_pos z
    omega
  · intro hm
    have hstep : 2 ^ (w - 1) = 2 ^ (w - 1 - m) * 2 ^ m := by
      rw [← Nat.pow_add]
      exact congrArg (2 ^ ·) (by omega)
    have hle : 2 ^ (w - z) ≤ 2 ^ (w - 1 - m) := Nat.pow_le_pow_right (by decide) (by omega)
    rw [hstep]
    exact Nat.mul_le_mul_right _ (Nat.le_trans h.lt hle)

end Bits
