import Mathlib.Data.Fintype.Card
import Mathlib.Data.List.Nodup

/-!
# Rooted trees

A tree by its parents: every node but the root has one that is less deep. `path v` are the nodes
from `v` upwards, without the root.
-/

namespace Pointers

structure RootedTree (ν : Type*) where
  root : ν
  parent : ν → ν
  depth : ν → ℕ
  depth_parent : ∀ {v}, v ≠ root → depth (parent v) < depth v

namespace RootedTree

variable {ν : Type*} [DecidableEq ν] {u v : ν}

/-- The nodes from `v` up to a child of the root. -/
def path (t : RootedTree ν) (v : ν) : List ν :=
  if v = t.root then [] else v :: t.path (t.parent v)
termination_by t.depth v
decreasing_by exact t.depth_parent ‹_›

variable (t : RootedTree ν)

@[simp] theorem path_root : t.path t.root = [] := by
  rw [path, if_pos rfl]

theorem path_of_ne (h : v ≠ t.root) : t.path v = v :: t.path (t.parent v) := by
  rw [path, if_neg h]

variable {t}

theorem root_of_depth (h : t.depth v = 0) : v = t.root := by
  by_contra hne
  have hlt := t.depth_parent hne
  omega

theorem depth_le_of_mem_path (h : u ∈ t.path v) : t.depth u ≤ t.depth v := by
  induction v using path.induct t with
  | case1 => simp at h
  | case2 v hne ih =>
      rw [t.path_of_ne hne] at h
      rcases List.mem_cons.1 h with rfl | h
      · exact Nat.le_refl _
      · exact (ih h).trans (Nat.le_of_lt (t.depth_parent hne))

/-- No node is twice on a path. -/
theorem nodup_path (t : RootedTree ν) (v : ν) : (t.path v).Nodup := by
  induction v using path.induct t with
  | case1 => simp
  | case2 v hne ih =>
      rw [t.path_of_ne hne]
      refine List.nodup_cons.2 ⟨fun hmem => ?_, ih⟩
      have hle := depth_le_of_mem_path hmem
      have hlt := t.depth_parent hne
      omega

theorem length_path_le [Fintype ν] (t : RootedTree ν) (v : ν) :
    (t.path v).length ≤ Fintype.card ν :=
  (t.nodup_path v).length_le_card

end RootedTree

end Pointers
