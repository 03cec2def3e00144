import Mathlib.Data.List.Nodup
import Mathlib.Data.List.Perm.Basic

/-!
# Cells that belong to lists

Cells with a pointer to their owner, and for each owner the list of its cells. `Held P Q own
lists` says that the two agree on the cells in `P` and the owners in `Q`: a cell with an owner
is in the list of this owner and in no other, and no list has a cell twice. A cell without an
owner is free.

The rules say what the operations on such a pool keep: to give a free cell to an owner, to take
the head of a list, and to clear a list.
-/

namespace Pool

variable {κ ι : Type*}

/-- The owners of the cells and the lists of the owners agree. -/
structure Held (P : κ → Prop) (Q : ι → Prop) (own : κ → Option ι) (lists : ι → List κ) :
    Prop where
  owner : ∀ m, P m → ∀ i, own m = some i → Q i ∧ m ∈ lists i
  cell : ∀ i, Q i → ∀ m ∈ lists i, P m ∧ own m = some i
  nodup : ∀ i, Q i → (lists i).Nodup

namespace Held

variable {P : κ → Prop} {Q : ι → Prop} {own own' : κ → Option ι} {lists lists' : ι → List κ}
  {m : κ} {i : ι}

/-- A cell with an owner is in exactly one list. -/
theorem existsUnique (h : Held P Q own lists) (hm : P m) (hi : own m = some i) :
    ∃! j, Q j ∧ m ∈ lists j := by
  refine ⟨i, h.owner m hm i hi, fun j ⟨hj, hmem⟩ => ?_⟩
  exact Option.some.inj ((h.cell j hj m hmem).2.symm.trans hi)

/-- A free cell is in no list. -/
theorem not_mem_of_free (h : Held P Q own lists) (hm : own m = none) (hi : Q i) :
    m ∉ lists i := fun hmem => by
  have hown := (h.cell i hi m hmem).2
  rw [hm] at hown
  cases hown

theorem congr (h : Held P Q own lists) (hown : ∀ m, P m → own' m = own m)
    (hlists : ∀ i, Q i → lists' i = lists i) : Held P Q own' lists' where
  owner m hm i hi := by
    obtain ⟨hQ, hmem⟩ := h.owner m hm i ((hown m hm).symm.trans hi)
    exact ⟨hQ, by rwa [hlists i hQ]⟩
  cell i hi m hmem := by
    rw [hlists i hi] at hmem
    obtain ⟨hP, hm⟩ := h.cell i hi m hmem
    exact ⟨hP, (hown m hP).trans hm⟩
  nodup i hi := by
    rw [hlists i hi]
    exact h.nodup i hi

/-- A free cell goes into the list of a new owner, at any place. -/
theorem give (h : Held P Q own lists) (hm : P m) (hi : Q i) (hfree : own m = none)
    (hm' : own' m = some i) (hown : ∀ k, k ≠ m → own' k = own k)
    (hi' : (lists' i).Perm (m :: lists i)) (hlists : ∀ j, j ≠ i → lists' j = lists j) :
    Held P Q own' lists' where
  owner k hk j hj := by
    by_cases hkm : k = m
    · subst hkm
      obtain rfl := Option.some.inj (hm'.symm.trans hj)
      exact ⟨hi, hi'.mem_iff.2 List.mem_cons_self⟩
    · obtain ⟨hQ, hmem⟩ := h.owner k hk j ((hown k hkm).symm.trans hj)
      refine ⟨hQ, ?_⟩
      by_cases hji : j = i
      · subst hji
        exact hi'.mem_iff.2 (List.mem_cons_of_mem _ hmem)
      · rwa [hlists j hji]
  cell j hj k hk := by
    have hold : k ∈ lists j → P k ∧ own' k = some j := fun hmem => by
      obtain ⟨hP, hkj⟩ := h.cell j hj k hmem
      have hkm : k ≠ m := fun heq => by
        rw [heq, hfree] at hkj
        cases hkj
      exact ⟨hP, (hown k hkm).trans hkj⟩
    by_cases hji : j = i
    · subst hji
      rcases List.mem_cons.1 (hi'.mem_iff.1 hk) with rfl | hmem
      · exact ⟨hm, hm'⟩
      · exact hold hmem
    · rw [hlists j hji] at hk
      exact hold hk
  nodup j hj := by
    by_cases hji : j = i
    · subst hji
      rw [hi'.nodup_iff, List.nodup_cons]
      exact ⟨h.not_mem_of_free hfree hj, h.nodup j hj⟩
    · rw [hlists j hji]
      exact h.nodup j hj

/-- The cells of `freed`, of one owner, become free; `rest` stays in its list. -/
theorem release (freed rest : List κ) (h : Held P Q own lists) (hi : Q i)
    (hlist : lists i = freed ++ rest) (hfreed : ∀ k ∈ freed, own' k = none)
    (hown : ∀ k, k ∉ freed → own' k = own k) (hi' : lists' i = rest)
    (hlists : ∀ j, j ≠ i → lists' j = lists j) : Held P Q own' lists' where
  owner k hk j hj := by
    have hnot : k ∉ freed := fun hmem => by
      rw [hfreed k hmem] at hj
      cases hj
    obtain ⟨hQ, hmem⟩ := h.owner k hk j ((hown k hnot).symm.trans hj)
    refine ⟨hQ, ?_⟩
    by_cases hji : j = i
    · subst hji
      rw [hi']
      rw [hlist] at hmem
      exact (List.mem_append.1 hmem).resolve_left hnot
    · rwa [hlists j hji]
  cell j hj k hk := by
    by_cases hji : j = i
    · subst hji
      rw [hi'] at hk
      have hmem : k ∈ lists j := by
        rw [hlist]
        exact List.mem_append_right _ hk
      have hdisjoint := (List.nodup_append.1 (hlist ▸ h.nodup j hj)).2.2
      have hnot : k ∉ freed := fun hf => hdisjoint k hf k hk rfl
      obtain ⟨hP, hkj⟩ := h.cell j hj k hmem
      exact ⟨hP, (hown k hnot).trans hkj⟩
    · rw [hlists j hji] at hk
      obtain ⟨hP, hkj⟩ := h.cell j hj k hk
      have hnot : k ∉ freed := fun hf => by
        have hmem : k ∈ lists i := by
          rw [hlist]
          exact List.mem_append_left _ hf
        exact hji (Option.some.inj (hkj.symm.trans (h.cell i hi k hmem).2))
      exact ⟨hP, (hown k hnot).trans hkj⟩
  nodup j hj := by
    by_cases hji : j = i
    · subst hji
      rw [hi']
      exact (List.nodup_append.1 (hlist ▸ h.nodup j hj)).2.1
    · rw [hlists j hji]
      exact h.nodup j hj

end Held

end Pool
