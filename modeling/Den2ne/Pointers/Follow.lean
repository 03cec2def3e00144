import Mathlib.Data.Finset.Card
import Mathlib.Data.List.Nodup
import Mathlib.Data.Nat.Find
import Mathlib.Logic.Function.Basic

/-!
# Pointers that are followed

Every cell points to at most one other cell. `follow next k x` is where `k` steps from `x` lead,
and `Leads next x y` says that some number of steps leads from `x` to `y`. Cycles are allowed, so
that a cell need not lead anywhere.

In a list of cells that is closed under the pointers, what leads to a cell leads there in fewer
steps than the list is long; and to turn the pointer of one cell loses no way to `y`, unless it
loses the one from that cell.
-/

namespace Pointers

variable {κ : Type*}

/-- Where `k` steps lead; none if a pointer on the way is. -/
def follow (next : κ → Option κ) : ℕ → κ → Option κ
  | 0, x => some x
  | k + 1, x => (next x).bind (follow next k)

/-- The pointers lead from `x` to `y`. -/
def Leads (next : κ → Option κ) (x y : κ) : Prop := ∃ k, follow next k x = some y

/-- The list has, with a cell, the cell it points to. -/
def Closed (next : κ → Option κ) (cells : List κ) : Prop :=
  ∀ x ∈ cells, ∀ y, next x = some y → y ∈ cells

variable {next next' : κ → Option κ} {cells : List κ} {x y z : κ} {k : ℕ}

@[simp] theorem follow_zero (x : κ) : follow next 0 x = some x := rfl

theorem follow_succ (k : ℕ) (x : κ) : follow next (k + 1) x = (next x).bind (follow next k) := rfl

theorem follow_add (k l : ℕ) (x : κ) :
    follow next (k + l) x = (follow next k x).bind (follow next l) := by
  induction k generalizing x with
  | zero => simp
  | succ k ih =>
      rw [Nat.succ_add, follow_succ, follow_succ, Option.bind_assoc]
      exact congrArg _ (funext ih)

theorem Closed.follow_mem (h : Closed next cells) (hx : x ∈ cells) (hy : follow next k x = some y) :
    y ∈ cells := by
  induction k generalizing x with
  | zero => exact Option.some.inj hy ▸ hx
  | succ k ih =>
      obtain ⟨z, hz, hrest⟩ := Option.bind_eq_some_iff.1 hy
      exact ih (h x hx z hz) hrest

theorem Closed.leads_mem (h : Closed next cells) (hx : x ∈ cells) (hy : Leads next x y) :
    y ∈ cells := hy.elim fun _ hk => h.follow_mem hx hk

/-- The shortest way comes to no cell twice. -/
theorem follow_injOn_of_min (hk : follow next k x = some y)
    (hmin : ∀ l < k, follow next l x ≠ some y) :
    Set.InjOn (follow next · x) (Finset.range (k + 1)) := by
  have hlt : ∀ i j, i < j → j ≤ k → follow next i x ≠ follow next j x := by
    intro i j hij hj heq
    have hcut : follow next (i + (k - j)) x = some y := by
      rw [follow_add, heq, ← follow_add, Nat.add_sub_cancel' hj, hk]
    exact hmin (i + (k - j)) (by omega) hcut
  intro i hi j hj heq
  rw [Finset.coe_range, Set.mem_Iio] at hi hj
  rcases Nat.lt_trichotomy i j with hij | hij | hij
  · exact absurd heq (hlt i j hij (by omega))
  · exact hij
  · exact absurd heq.symm (hlt j i hij (by omega))

/-- In a closed list, what leads to a cell leads there in fewer steps than there are cells. -/
theorem Closed.leads_iff (h : Closed next cells) (hx : x ∈ cells) :
    Leads next x y ↔ ∃ k < cells.length, follow next k x = some y := by
  classical
  refine ⟨fun hleads => ?_, fun ⟨k, _, hk⟩ => ⟨k, hk⟩⟩
  refine ⟨Nat.find hleads, ?_, Nat.find_spec hleads⟩
  have hinj := follow_injOn_of_min (Nat.find_spec hleads) fun l hl => Nat.find_min hleads hl
  have hmaps : Set.MapsTo (follow next · x) (Finset.range (Nat.find hleads + 1))
      ((cells.toFinset.image some : Finset (Option κ)) : Set (Option κ)) := by
    intro i hi
    rw [Finset.coe_range, Set.mem_Iio] at hi
    have hsplit : i + (Nat.find hleads - i) = Nat.find hleads := by omega
    have hfind := Nat.find_spec hleads
    rw [← hsplit, follow_add] at hfind
    obtain ⟨z, hz, -⟩ := Option.bind_eq_some_iff.1 hfind
    simpa [hz] using h.follow_mem hx hz
  have hcard := Finset.card_le_card_of_injOn _ hmaps hinj
  rw [Finset.card_range] at hcard
  have himage := (Finset.card_image_le (f := some) (s := cells.toFinset)).trans
    (List.toFinset_card_le cells)
  omega

/-- The pointer of `x` is turned. What led to `y` still does, if `x` leads there now or did not
lead there before. -/
theorem Leads.turn (hne : ∀ z, z ≠ x → next' z = next z)
    (hx : Leads next x y → Leads next' x y) (h : Leads next z y) : Leads next' z y := by
  obtain ⟨k, hk⟩ := h
  induction k generalizing z with
  | zero => exact ⟨0, hk⟩
  | succ k ih =>
      by_cases hzx : z = x
      · subst hzx
        exact hx ⟨k + 1, hk⟩
      · obtain ⟨w, hw, hrest⟩ := Option.bind_eq_some_iff.1 hk
        obtain ⟨l, hl⟩ := ih hrest
        refine ⟨l + 1, ?_⟩
        rw [follow_succ, hne z hzx, hw]
        exact hl

/-- The ways within a closed list depend on the pointers of its cells only. -/
theorem Closed.follow_congr (h : Closed next cells) (heq : ∀ z ∈ cells, next' z = next z)
    (hx : x ∈ cells) : follow next' k x = follow next k x := by
  induction k generalizing x with
  | zero => rfl
  | succ k ih =>
      rw [follow_succ, follow_succ, heq x hx]
      cases hz : next x with
      | none => rfl
      | some z => exact ih (h x hx z hz)

theorem Closed.leads_congr (h : Closed next cells) (heq : ∀ z ∈ cells, next' z = next z)
    (hx : x ∈ cells) : Leads next' x y ↔ Leads next x y :=
  exists_congr fun k => by rw [h.follow_congr heq hx]

end Pointers
