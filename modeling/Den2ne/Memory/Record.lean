import Mathlib.Data.Nat.Notation
import Mathlib.Logic.Basic

/-!
# Records in a memory

A memory whose cells hold bytes and parts of records. A record is written over `n` cells; it is
read where all its parts still are, and what is read elsewhere is `junk`. What a record does not
meet stays as it was.
-/

namespace Memory

/-- A cell of a memory. -/
inductive Cell (ρ β : Type*)
  | byte (b : β)
  | part (r : ρ) (i : ℕ)
deriving DecidableEq, Repr

variable {ρ β : Type*} {n p q i : ℕ} {m m' : ℕ → Cell ρ β} {r r' : ρ}

/-- The memory with the record at `p`. -/
def putRecord (n : ℕ) (m : ℕ → Cell ρ β) (p : ℕ) (r : ρ) : ℕ → Cell ρ β := fun i =>
  if p ≤ i ∧ i < p + n then .part r (i - p) else m i

/-- All parts of the record are at `p`. -/
def HasRecord (n : ℕ) (m : ℕ → Cell ρ β) (p : ℕ) (r : ρ) : Prop :=
  ∀ i < n, m (p + i) = .part r i

instance [DecidableEq ρ] [DecidableEq β] : Decidable (HasRecord n m p r) :=
  inferInstanceAs (Decidable (∀ i < n, m (p + i) = .part r i))

/-- What is read at `p`. -/
def getRecord [DecidableEq ρ] [DecidableEq β] (n : ℕ) (junk : ρ) (m : ℕ → Cell ρ β) (p : ℕ) : ρ :=
  match m p with
  | .part r _ => if HasRecord n m p r then r else junk
  | .byte _ => junk

theorem HasRecord.getRecord [DecidableEq ρ] [DecidableEq β] {junk : ρ} (h : HasRecord n m p r)
    (hn : 0 < n) : getRecord n junk m p = r := by
  have hfirst : m p = .part r 0 := h 0 hn
  rw [Memory.getRecord, hfirst]
  exact if_pos h

/-- What is read depends on the cells of the record. -/
theorem getRecord_congr [DecidableEq ρ] [DecidableEq β] {junk : ρ} (hn : 0 < n)
    (heq : ∀ i, p ≤ i → i < p + n → m' i = m i) :
    Memory.getRecord n junk m' p = Memory.getRecord n junk m p := by
  have hrecord : ∀ r, HasRecord n m' p r ↔ HasRecord n m p r := fun r =>
    forall₂_congr fun i hi => by
      rw [heq (p + i) (Nat.le_add_right p i) (Nat.add_lt_add_left hi p)]
  rw [Memory.getRecord, Memory.getRecord, heq p (Nat.le_refl p) (Nat.lt_add_of_pos_right hn)]
  simp only [hrecord]

theorem HasRecord.congr (h : HasRecord n m p r) (heq : ∀ i, p ≤ i → i < p + n → m' i = m i) :
    HasRecord n m' p r := by
  intro i hi
  rw [heq (p + i) (Nat.le_add_right p i) (Nat.add_lt_add_left hi p), h i hi]

theorem hasRecord_putRecord (m : ℕ → Cell ρ β) (p : ℕ) (r : ρ) :
    HasRecord n (putRecord n m p r) p r := by
  intro i hi
  rw [putRecord, if_pos ⟨Nat.le_add_right p i, Nat.add_lt_add_left hi p⟩,
    Nat.add_sub_cancel_left]

theorem putRecord_of_outside (h : i < p ∨ p + n ≤ i) : putRecord n m p r i = m i := by
  refine if_neg fun hin => ?_
  omega

theorem HasRecord.putRecord (h : HasRecord n m q r') (hout : p + n ≤ q ∨ q + n ≤ p) :
    HasRecord n (putRecord n m p r) q r' := by
  refine h.congr fun i hle hlt => putRecord_of_outside ?_
  omega

theorem putRecord_comm (m : ℕ → Cell ρ β) (r r' : ρ) (hout : p + n ≤ q ∨ q + n ≤ p) :
    Memory.putRecord n (Memory.putRecord n m p r) q r' =
      Memory.putRecord n (Memory.putRecord n m q r') p r := by
  funext i
  by_cases hp : p ≤ i ∧ i < p + n
  · have hq : ¬ (q ≤ i ∧ i < q + n) := fun hq => by omega
    simp only [Memory.putRecord, hp, hq, if_false]
  · simp only [Memory.putRecord, hp, if_false]

theorem putRecord_putRecord (m : ℕ → Cell ρ β) (p : ℕ) (r r' : ρ) :
    Memory.putRecord n (Memory.putRecord n m p r) p r' = Memory.putRecord n m p r' := by
  funext i
  by_cases hin : p ≤ i ∧ i < p + n
  · simp only [Memory.putRecord, hin, and_self, if_true]
  · simp only [Memory.putRecord, hin, if_false]

end Memory
