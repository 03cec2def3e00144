import Mathlib.Algebra.Order.Ring.Int

/-!
# Little-endian integers

The `w` bytes of a natural number, the lowest one first, and the number that a
list of bytes stands for; two's complement integers of `w` bytes over them.
What a width cannot hold is dropped.
-/

namespace Bytes

/-- The `w` lowest bytes of `n`. -/
def ofNat : ℕ → ℕ → List UInt8
  | 0, _ => []
  | w + 1, n => UInt8.ofNat n :: ofNat w (n / 256)

/-- The number with these bytes. -/
def toNat : List UInt8 → ℕ
  | [] => 0
  | b :: bs => b.toNat + 256 * toNat bs

/-- The `w` bytes of an integer. -/
def ofInt (w : ℕ) (x : ℤ) : List UInt8 := ofNat w (x % 256 ^ w).toNat

/-- The integer with these bytes. -/
def toInt (bs : List UInt8) : ℤ := Int.bmod (toNat bs) (256 ^ bs.length)

@[simp] theorem length_ofNat (w n : ℕ) : (ofNat w n).length = w := by
  induction w generalizing n with
  | zero => rfl
  | succ w ih => rw [ofNat, List.length_cons, ih]

@[simp] theorem length_ofInt (w : ℕ) (x : ℤ) : (ofInt w x).length = w := length_ofNat _ _

theorem toNat_ofNat (w n : ℕ) : toNat (ofNat w n) = n % 256 ^ w := by
  induction w generalizing n with
  | zero => rw [ofNat, toNat, pow_zero, Nat.mod_one]
  | succ w ih =>
      rw [ofNat, toNat, ih, UInt8.toNat_ofNat', pow_succ' 256 w, Nat.mod_mul]

theorem toNat_ofNat_of_lt {w n : ℕ} (h : n < 256 ^ w) : toNat (ofNat w n) = n := by
  rw [toNat_ofNat, Nat.mod_eq_of_lt h]

theorem toNat_replicate_zero (k : ℕ) : toNat (List.replicate k 0) = 0 := by
  induction k with
  | zero => rfl
  | succ k ih =>
      rw [List.replicate_succ, toNat, ih]
      rfl

theorem toNat_append_replicate_zero (bs : List UInt8) (k : ℕ) :
    toNat (bs ++ List.replicate k 0) = toNat bs := by
  induction bs with
  | nil => exact toNat_replicate_zero k
  | cons b bs ih => rw [List.cons_append, toNat, toNat, ih]

/-- Numbers of one width have the same bytes. -/
theorem toNat_inj {bs cs : List UInt8} (hlen : bs.length = cs.length) :
    toNat bs = toNat cs ↔ bs = cs := by
  refine ⟨fun h => ?_, fun h => h ▸ rfl⟩
  induction bs generalizing cs with
  | nil => exact (List.length_eq_zero_iff.mp hlen.symm).symm
  | cons b bs ih =>
      cases cs with
      | nil => cases hlen
      | cons c cs =>
          have hb := b.toNat_lt
          have hc := c.toNat_lt
          rw [toNat, toNat] at h
          rw [UInt8.toNat_inj.mp (by omega : b.toNat = c.toNat),
            ih (Nat.succ.inj hlen) (by omega)]

/-- An integer is read back modulo the range of its width. -/
theorem toInt_ofInt (w : ℕ) (x : ℤ) : toInt (ofInt w x) = Int.bmod x (256 ^ w) := by
  have hpos : (0 : ℤ) < 256 ^ w := pow_pos (by decide) w
  have hnonneg : 0 ≤ x % 256 ^ w := Int.emod_nonneg _ hpos.ne'
  have hlt : (x % 256 ^ w).toNat < 256 ^ w := by
    rw [Int.toNat_lt hnonneg]
    exact_mod_cast Int.emod_lt_of_pos x hpos
  rw [toInt, length_ofInt, ofInt, toNat_ofNat_of_lt hlt, Int.toNat_of_nonneg hnonneg]
  exact_mod_cast Int.emod_bmod x (256 ^ w)

end Bytes
