import Den2ne.Memory.Range
import Mathlib.Algebra.Ring.Nat

/-!
# Pieces of one length

A stretch of memory is cut into pieces of the length `m` as long as more than `last` of it is
left; what is left then is the last piece. `fulls` is the number of the pieces before the last
one.
-/

namespace Pieces

open Memory

variable {α : Type*} {m last r k : ℕ}

/-- The number of pieces of the length `m` before the last one. -/
def fulls (m last r : ℕ) : ℕ := (r - last + (m - 1)) / m

/-- A piece is not the last one as long as more than `last` is left with it. -/
theorem lt_fulls_iff (hm : 0 < m) : k < fulls m last r ↔ last + k * m < r := by
  rw [fulls, Nat.lt_iff_add_one_le, Nat.le_div_iff_mul_le hm, Nat.succ_mul]
  omega

/-- Something is left for the last piece. -/
theorem fulls_mul_lt (hm : 0 < m) (hlast : m ≤ last) (hr : 0 < r) : fulls m last r * m < r := by
  cases hk : fulls m last r with
  | zero => rwa [Nat.zero_mul]
  | succ k =>
      have hlt : last + k * m < r := (lt_fulls_iff hm).1 (hk ▸ Nat.lt_succ_self k)
      rw [Nat.succ_mul]
      omega

end Pieces
