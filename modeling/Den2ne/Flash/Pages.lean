import Mathlib.Data.Nat.Notation
import Mathlib.Data.List.Basic

/-!
# Flash memory

A memory of bytes that is erased by pages. What a write leaves in a byte depends
on the byte that was there (a real flash can only clear bits), but an erased
byte takes any value. `write_erased` and `write_of_outside` say what a write
does to erased bytes and that it touches no others; `erase_same` and
`erase_other` do it for a page.
-/

namespace Flash

abbrev Memory := ℕ → UInt8

/-- How the bytes of a device change, and the size of its pages. -/
structure Device where
  program : UInt8 → UInt8 → UInt8
  program_erased : ∀ b, program 255 b = b
  pageSize : ℕ
  pageSize_pos : 0 < pageSize

variable (d : Device)

/-- Write bytes from the position `p` on. -/
def write (p : ℕ) (bs : List UInt8) (m : Memory) : Memory := fun i =>
  if p ≤ i ∧ i < p + bs.length then d.program (m i) (bs.getD (i - p) 255) else m i

/-- Erase the page of the position `p`. -/
def erase (p : ℕ) (m : Memory) : Memory := fun i =>
  if i / d.pageSize = p / d.pageSize then 255 else m i

variable {d} {p i : ℕ} {bs : List UInt8} {m : Memory}

theorem write_of_outside (h : i < p ∨ p + bs.length ≤ i) : write d p bs m i = m i := by
  rw [write, if_neg]
  rintro ⟨hle, hlt⟩
  rcases h with h | h
  · exact absurd hle (Nat.not_le.2 h)
  · exact absurd hlt (Nat.not_lt.2 h)

/-- An erased byte takes the value that is written. -/
theorem write_erased {k : ℕ} (hk : k < bs.length) (hm : m (p + k) = 255) :
    write d p bs m (p + k) = bs.getD k 255 := by
  rw [write, if_pos ⟨Nat.le_add_right p k, Nat.add_lt_add_left hk p⟩, hm, d.program_erased,
    Nat.add_sub_cancel_left]

theorem erase_same (h : i / d.pageSize = p / d.pageSize) : erase d p m i = 255 := if_pos h

theorem erase_other (h : i / d.pageSize ≠ p / d.pageSize) : erase d p m i = m i := if_neg h

/-- What is erased stays erased. -/
theorem erase_of_erased (h : m i = 255) : erase d p m i = 255 := by
  rw [erase, h, ite_self]

/-- Erase `n` pages, from the page of `p` on. -/
def eraseMany (d : Device) (p : ℕ) : ℕ → Memory → Memory
  | 0, m => m
  | n + 1, m => erase d (p + n * d.pageSize) (eraseMany d p n m)

theorem eraseMany_of_erased {n : ℕ} (h : m i = 255) : eraseMany d p n m i = 255 := by
  induction n with
  | zero => exact h
  | succ n ih => exact erase_of_erased ih

/-- The pages that are erased. -/
theorem eraseMany_same {n : ℕ} (hp : p / d.pageSize ≤ i / d.pageSize)
    (hi : i / d.pageSize < p / d.pageSize + n) : eraseMany d p n m i = 255 := by
  induction n with
  | zero => exact absurd hi (Nat.not_lt.2 hp)
  | succ n ih =>
      by_cases hlast : i / d.pageSize = p / d.pageSize + n
      · refine erase_same ?_
        rw [hlast, Nat.add_mul_div_right _ _ d.pageSize_pos]
      · exact erase_of_erased (ih (by omega))

end Flash
