import Mathlib.Logic.Relation
import Mathlib.Order.Nat

/-!
# Relations that descend

A relation descends along a rank in `ℕ` when each of its steps lowers the rank.
Then no chain of steps returns to its start, and a point from which one can
always step on, unless it is the root, leads to the root.
-/

namespace Ranked

open Relation

variable {α : Type*} {R : α → α → Prop} {rank : α → ℕ}

/-- Every step of `R` lowers the rank. -/
def Descends (R : α → α → Prop) (rank : α → ℕ) : Prop := ∀ ⦃u v⦄, R u v → rank v < rank u

theorem Descends.transGen (h : Descends R rank) {u v : α} (hR : TransGen R u v) :
    rank v < rank u := by
  induction hR with
  | single hstep => exact h hstep
  | tail _ hstep ih => exact Nat.lt_trans (h hstep) ih

/-- A descending relation has no cycles. -/
theorem Descends.not_transGen_self (h : Descends R rank) (u : α) : ¬ TransGen R u u :=
  fun hR => Nat.lt_irrefl _ (h.transGen hR)

/-- If every point of `P` other than the root steps to a point of `P`, every
point of `P` leads to the root. -/
theorem Descends.reflTransGen_root (h : Descends R rank) {P : α → Prop} {root : α}
    (hnext : ∀ u, P u → u = root ∨ ∃ v, R u v ∧ P v) {u : α} (hu : P u) :
    ReflTransGen R u root := by
  induction hrank : rank u using Nat.strongRecOn generalizing u with
  | ind n ih =>
      rcases hnext u hu with rfl | ⟨v, hstep, hv⟩
      · exact .refl
      · have hlt : rank v < n := hrank ▸ h hstep
        exact .head hstep (ih _ hlt hv rfl)

end Ranked
