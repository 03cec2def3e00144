import Mathlib.Data.List.Nodup
import Mathlib.Data.List.Perm.Subperm

/-!
# Pools of blocks

A pool of equal blocks with a flag for each that says whether it is in use. A
block is taken first fit and given back by its number; giving back a block that
is not in use changes nothing. `Holds p l` says that the blocks in use are
those of the list `l`, none twice, so that the owner of the list accounts for
the whole pool.
-/

namespace Pool

/-- The flags of the blocks. -/
abbrev Blocks := List Bool

/-- A pool of `num` free blocks. -/
def init (num : ℕ) : Blocks := List.replicate num false

/-- The first block that is not in use; none if all are. -/
def alloc (p : Blocks) : Option (ℕ × Blocks) :=
  (p.findIdx? (! ·)).map fun i => (i, p.set i true)

/-- Give a block back. -/
def free (p : Blocks) (i : ℕ) : Blocks := p.set i false

/-- The blocks in use are those of `l`, none twice. -/
structure Holds (p : Blocks) (l : List ℕ) : Prop where
  nodup : l.Nodup
  used : ∀ i, p[i]? = some true ↔ i ∈ l

variable {p p' : Blocks} {l : List ℕ} {i : ℕ}

theorem holds_init (num : ℕ) : Holds (init num) [] where
  nodup := List.nodup_nil
  used i := by
    simp [init, List.getElem?_replicate]

theorem Holds.of_perm {l' : List ℕ} (h : Holds p l) (hl : l.Perm l') : Holds p l' where
  nodup := hl.nodup_iff.1 h.nodup
  used i := (h.used i).trans hl.mem_iff

theorem alloc_eq_some (h : alloc p = some (i, p')) :
    p[i]? = some false ∧ p' = p.set i true := by
  obtain ⟨j, hj, heq⟩ := Option.map_eq_some_iff.1 h
  rw [Prod.mk.injEq] at heq
  obtain ⟨rfl, rfl⟩ := heq
  obtain ⟨hlt, hfree, -⟩ := List.findIdx?_eq_some_iff_getElem.1 hj
  refine ⟨?_, rfl⟩
  rw [List.getElem?_eq_getElem hlt, Option.some.injEq]
  simpa using hfree

theorem alloc_eq_none : alloc p = none ↔ false ∉ p := by
  rw [alloc, Option.map_eq_none_iff, List.findIdx?_eq_none_iff]
  constructor
  · intro h hmem
    exact Bool.noConfusion (h false hmem)
  · intro h b hb
    cases b with
    | false => exact absurd hb h
    | true => rfl

/-- A block that is taken and given back leaves the pool as it was. -/
theorem free_alloc (h : alloc p = some (i, p')) : free p' i = p := by
  obtain ⟨hfree, rfl⟩ := alloc_eq_some h
  obtain ⟨hlt, hi⟩ := List.getElem?_eq_some_iff.1 hfree
  rw [free, List.set_set, ← hi, List.set_getElem_self]

theorem Holds.subset_range (h : Holds p l) : l ⊆ List.range p.length := fun i hi =>
  List.mem_range.2 (List.getElem?_eq_some_iff.1 ((h.used i).2 hi)).1

theorem Holds.length_le (h : Holds p l) : l.length ≤ p.length := by
  have hle := (h.nodup.subperm h.subset_range).length_le
  rwa [List.length_range] at hle

/-- No block is left when as many are in use as there are. -/
theorem Holds.alloc_eq_none_iff (h : Holds p l) : alloc p = none ↔ p.length ≤ l.length := by
  rw [alloc_eq_none]
  constructor
  · intro hfull
    rw [← List.length_range (n := p.length)]
    refine (List.nodup_range.subperm fun i hi => (h.used i).1 ?_).length_le
    obtain hlt := List.mem_range.1 hi
    rw [List.getElem?_eq_getElem hlt, Option.some.injEq]
    have hne : p[i] ≠ false := fun heq => hfull (heq ▸ List.getElem_mem hlt)
    simpa using hne
  · intro hle hmem
    obtain ⟨i, hi, hfree⟩ := List.getElem_of_mem hmem
    have hnot : i ∉ l := fun hil => by
      have hused := (h.used i).2 hil
      rw [List.getElem?_eq_getElem hi, hfree] at hused
      cases hused
    have hsub : i :: l ⊆ List.range p.length :=
      List.cons_subset.2 ⟨List.mem_range.2 hi, h.subset_range⟩
    have hlt := ((List.nodup_cons.2 ⟨hnot, h.nodup⟩).subperm hsub).length_le
    rw [List.length_cons, List.length_range] at hlt
    omega

/-- Taking a block adds one to those in use. -/
theorem Holds.alloc (h : Holds p l) (hp : Pool.alloc p = some (i, p')) : Holds p' (i :: l) := by
  obtain ⟨hfree, rfl⟩ := alloc_eq_some hp
  have hlt : i < p.length := (List.getElem?_eq_some_iff.1 hfree).1
  refine ⟨List.nodup_cons.2 ⟨fun hi => ?_, h.nodup⟩, fun j => ?_⟩
  · rw [(h.used i).2 hi, Option.some.injEq] at hfree
    exact Bool.noConfusion hfree
  · rw [List.getElem?_set, List.mem_cons]
    by_cases hij : i = j
    · subst hij
      simp [hlt]
    · rw [if_neg hij, h.used j]
      exact (or_iff_right (Ne.symm hij)).symm

/-- Giving a block back takes it from those in use. -/
theorem Holds.free (h : Holds p (i :: l)) : Holds (Pool.free p i) l := by
  obtain ⟨hi, hl⟩ := List.nodup_cons.1 h.nodup
  refine ⟨hl, fun j => ?_⟩
  rw [Pool.free, List.getElem?_set]
  by_cases hij : i = j
  · subst hij
    split
    · split
      · exact iff_of_false (by simp) hi
      · exact iff_of_false (by simp) hi
    · rename_i hne
      exact absurd rfl hne
  · rw [if_neg hij, h.used j, List.mem_cons]
    exact or_iff_right (Ne.symm hij)

end Pool
