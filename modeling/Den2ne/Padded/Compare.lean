import Mathlib.Data.List.DropRight
import Mathlib.Data.List.Lex
import Mathlib.Order.BoundedOrder.Lattice

/-!
# Comparing sequences of different lengths

Two sequences over a linear order with a least element are compared as if the shorter one were
continued with the least element. This is the lexicographic comparison of what is left when the
least elements at the ends are dropped, so it is a total preorder.
-/

namespace Padded

variable {α : Type*} [LinearOrder α] [OrderBot α]

/-- Element by element; a missing element counts as the least one. -/
def compare : List α → List α → Ordering
  | [], [] => .eq
  | [], y :: ys => if ⊥ < y then .lt else compare [] ys
  | x :: xs, [] => if ⊥ < x then .gt else compare xs []
  | x :: xs, y :: ys => if x < y then .lt else if y < x then .gt else compare xs ys

/-- The sequence without the least elements at its end. -/
def strip (xs : List α) : List α := xs.rdropWhile (· = ⊥)

variable {x y : α} {xs ys zs s t : List α}

@[simp] theorem strip_nil : strip ([] : List α) = [] := rfl

theorem strip_cons_of_strip_ne_nil (h : strip xs ≠ []) : strip (x :: xs) = x :: strip xs := by
  have hne : (xs.reverse.dropWhile fun a => decide (a = ⊥)) ≠ [] := fun hnil => h (by
    rw [strip, List.rdropWhile, hnil, List.reverse_nil])
  rw [strip, strip, List.rdropWhile, List.rdropWhile, List.reverse_cons, List.dropWhile_append,
    if_neg (by simpa [List.isEmpty_iff] using hne), List.reverse_append]
  rfl

theorem strip_cons_of_strip_eq_nil (h : strip xs = []) :
    strip (x :: xs) = if x = ⊥ then [] else [x] := by
  have hnil : (xs.reverse.dropWhile fun a => decide (a = ⊥)) = [] := by
    rw [strip, List.rdropWhile, List.reverse_eq_nil_iff] at h
    exact h
  rw [strip, List.rdropWhile, List.reverse_cons, List.dropWhile_append, hnil,
    if_pos List.isEmpty_nil]
  by_cases hx : x = ⊥
  · simp [hx]
  · simp [hx]

/-- Only a sequence that begins with the least element can be stripped to nothing. -/
theorem strip_cons_of_ne_bot (hx : x ≠ ⊥) (xs : List α) : strip (x :: xs) = x :: strip xs := by
  by_cases h : strip xs = []
  · rw [strip_cons_of_strip_eq_nil h, if_neg hx, h]
  · exact strip_cons_of_strip_ne_nil h

/-- A smaller first element decides. -/
theorem strip_cons_lt_strip_cons_of_lt (h : x < y) : strip (x :: xs) < strip (y :: ys) := by
  have hy : y ≠ ⊥ := (bot_le.trans_lt h).ne'
  rw [strip_cons_of_ne_bot hy]
  by_cases hxs : strip xs = []
  · rw [strip_cons_of_strip_eq_nil hxs]
    split
    · exact List.nil_lt_cons _ _
    · exact List.cons_lt_cons_iff.2 (.inl h)
  · rw [strip_cons_of_strip_ne_nil hxs]
    exact List.cons_lt_cons_iff.2 (.inl h)

/-- The same first element does not. -/
theorem strip_cons_lt_strip_cons_iff : strip (x :: xs) < strip (x :: ys) ↔ strip xs < strip ys := by
  by_cases hx : x = ⊥
  · subst hx
    by_cases hxs : strip xs = [] <;> by_cases hys : strip ys = []
    · simp [strip_cons_of_strip_eq_nil, hxs, hys]
    · have hlt : ([] : List α) < strip ys := by
        obtain ⟨z, zs, hz⟩ := List.exists_cons_of_ne_nil hys
        rw [hz]
        exact List.nil_lt_cons z zs
      simp [strip_cons_of_strip_eq_nil hxs, strip_cons_of_strip_ne_nil hys, hxs, hlt]
    · have hle : ¬ strip xs < [] := List.not_lt_nil _
      simp [strip_cons_of_strip_eq_nil hys, strip_cons_of_strip_ne_nil hxs, hys]
    · simp [strip_cons_of_strip_ne_nil hxs, strip_cons_of_strip_ne_nil hys]
  · simp [strip_cons_of_ne_bot hx]

theorem strip_bot_singleton : strip [(⊥ : α)] = [] := by
  rw [strip_cons_of_strip_eq_nil rfl, if_pos rfl]

/-- The comparison is the lexicographic one of the stripped sequences. -/
theorem compare_eq_lt_iff (xs ys : List α) : compare xs ys = .lt ↔ strip xs < strip ys := by
  fun_induction compare xs ys with
  | case1 => exact iff_of_false nofun (lt_irrefl _)
  | case2 y ys hy =>
      rw [strip_cons_of_ne_bot hy.ne']
      exact iff_of_true rfl (List.nil_lt_cons _ _)
  | case3 y ys hy ih =>
      obtain rfl : y = ⊥ := not_bot_lt_iff.1 hy
      have hbot : strip [(⊥ : α)] < strip (⊥ :: ys) ↔ strip [] < strip ys :=
        strip_cons_lt_strip_cons_iff
      rw [ih, ← hbot, strip_bot_singleton]
      rfl
  | case4 x xs hx => exact iff_of_false nofun (List.not_lt_nil _)
  | case5 x xs hx ih => exact ih.trans (iff_of_false (List.not_lt_nil _) (List.not_lt_nil _))
  | case6 x xs y ys hlt => exact iff_of_true rfl (strip_cons_lt_strip_cons_of_lt hlt)
  | case7 x xs y ys _ hlt => exact iff_of_false nofun (strip_cons_lt_strip_cons_of_lt hlt).asymm
  | case8 x xs y ys hxy hyx ih =>
      obtain rfl : x = y := le_antisymm (not_lt.1 hyx) (not_lt.1 hxy)
      rw [ih, strip_cons_lt_strip_cons_iff]

theorem compare_swap (xs ys : List α) : (compare xs ys).swap = compare ys xs := by
  fun_induction compare xs ys with
  | case1 =>
      rw [compare]
      rfl
  | case2 y ys hy =>
      rw [compare, if_pos hy]
      rfl
  | case3 y ys hy ih => rw [compare, if_neg hy, ih]
  | case4 x xs hx =>
      rw [compare, if_pos hx]
      rfl
  | case5 x xs hx ih => rw [compare, if_neg hx, ih]
  | case6 x xs y ys hlt =>
      rw [compare, if_neg hlt.asymm, if_pos hlt]
      rfl
  | case7 x xs y ys _ hlt =>
      rw [compare, if_pos hlt]
      rfl
  | case8 x xs y ys hxy hyx ih => rw [compare, if_neg hyx, if_neg hxy, ih]

theorem compare_eq_gt_iff (xs ys : List α) : compare xs ys = .gt ↔ strip ys < strip xs := by
  rw [← compare_eq_lt_iff, ← compare_swap xs ys]
  cases compare xs ys <;> simp

theorem compare_eq_eq_iff (xs ys : List α) : compare xs ys = .eq ↔ strip xs = strip ys := by
  have hlt := compare_eq_lt_iff xs ys
  have hgt := compare_eq_gt_iff xs ys
  constructor
  · intro h
    rw [h] at hlt hgt
    exact le_antisymm (not_lt.1 fun hys => nomatch hgt.2 hys) (not_lt.1 fun hxs => nomatch hlt.2 hxs)
  · intro h
    rw [h] at hlt hgt
    cases hcompare : compare xs ys with
    | eq => rfl
    | lt => exact absurd (hlt.1 hcompare) (lt_irrefl _)
    | gt => exact absurd (hgt.1 hcompare) (lt_irrefl _)

theorem compare_ne_gt_iff {xs ys : List α} : compare xs ys ≠ .gt ↔ strip xs ≤ strip ys := by
  rw [Ne, compare_eq_gt_iff, not_lt]

theorem compare_ne_gt_trans (h : compare xs ys ≠ .gt) (h' : compare ys zs ≠ .gt) :
    compare xs zs ≠ .gt :=
  compare_ne_gt_iff.2 ((compare_ne_gt_iff.1 h).trans (compare_ne_gt_iff.1 h'))

end Padded
