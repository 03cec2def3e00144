import Mathlib.Algebra.BigOperators.Group.Finset.Basic
import Mathlib.Algebra.Order.BigOperators.Group.Finset

/-!
# Consecutive pieces

A list that is cut into pieces, none of them empty: `start` is where a piece begins. Every place
of the list is in exactly one piece, so that a collection of different pieces is complete as soon
as its length is that of the list.
-/

namespace Pieces

variable {α : Type*}

/-- A piece by its number. -/
def piece (ls : List (List α)) (j : ℕ) : List α := ls.getD j []

/-- Where a piece begins. -/
def start (ls : List (List α)) (j : ℕ) : ℕ := (ls.take j).flatten.length

variable {ls : List (List α)} {j k x : ℕ}

theorem piece_eq (h : j < ls.length) : piece ls j = ls[j] := by
  rw [piece, List.getD_eq_getElem?_getD, List.getElem?_eq_getElem h]
  rfl

theorem start_succ (h : j < ls.length) : start ls (j + 1) = start ls j + (piece ls j).length := by
  rw [start, List.take_succ_eq_append_getElem h, List.flatten_concat, List.length_append,
    piece_eq h]
  rfl

theorem piece_take (h : j < k) : piece (ls.take k) j = piece ls j := by
  rw [piece, piece, List.getD_eq_getElem?_getD, List.getElem?_take_of_lt h,
    List.getD_eq_getElem?_getD]

theorem start_take (h : j ≤ k) : start (ls.take k) j = start ls j := by
  rw [start, List.take_take, Nat.min_eq_left h]
  rfl

theorem start_mono (h : j ≤ k) : start ls j ≤ start ls k := by
  rw [start, start, List.length_flatten, List.length_flatten]
  exact ((List.take_sublist_take_left h).map _).sum_le_sum fun _ _ => Nat.zero_le _

theorem start_le (ls : List (List α)) (j : ℕ) : start ls j ≤ ls.flatten.length :=
  ((List.take_sublist j ls).flatten).length_le

/-- What the list holds at a place of a piece. -/
theorem getElem?_start (h : j < ls.length) (hx : x < (piece ls j).length) :
    ls.flatten[start ls j + x]? = (piece ls j)[x]? := by
  have hcut : ls.flatten = (ls.take j).flatten ++ (piece ls j ++ (ls.drop (j + 1)).flatten) := by
    rw [piece_eq h, ← List.flatten_cons, ← List.drop_eq_getElem_cons h, ← List.flatten_append,
      List.take_append_drop]
  rw [hcut, start, List.getElem?_append_right (Nat.le_add_right _ _), Nat.add_sub_cancel_left,
    List.getElem?_append_left hx]

/-- Every place is in a piece. -/
theorem exists_piece (hx : x < ls.flatten.length) :
    ∃ j < ls.length, start ls j ≤ x ∧ x < start ls j + (piece ls j).length := by
  have hbehind : ∀ n ≤ ls.length, x < start ls n →
      ∃ j < n, start ls j ≤ x ∧ x < start ls j + (piece ls j).length := by
    intro n hn hlt
    induction n with
    | zero => exact absurd hlt (Nat.not_lt_zero x)
    | succ n ih =>
        by_cases hbefore : x < start ls n
        · obtain ⟨j, hj, hin⟩ := ih (Nat.le_of_succ_le hn) hbefore
          exact ⟨j, Nat.lt_succ_of_lt hj, hin⟩
        · exact ⟨n, Nat.lt_succ_self n, Nat.le_of_not_lt hbefore, start_succ hn ▸ hlt⟩
  refine hbehind ls.length (Nat.le_refl _) ?_
  rwa [start, List.take_length]

/-! ## Collections of pieces -/

variable (hne : ∀ l ∈ ls, l ≠ [])
include hne

theorem length_piece_pos (h : j < ls.length) : 0 < (piece ls j).length := by
  rw [piece_eq h]
  exact List.length_pos_of_ne_nil (hne _ (List.getElem_mem h))

theorem start_lt_start (h : j < k) (hk : k < ls.length) : start ls j < start ls k := by
  have hj := Nat.lt_trans h hk
  have hpos := length_piece_pos hne hj
  have hle : start ls (j + 1) ≤ start ls k := start_mono h
  rw [start_succ hj] at hle
  omega

theorem start_inj (hj : j < ls.length) (hk : k < ls.length) (h : start ls j = start ls k) :
    j = k := by
  rcases Nat.lt_trichotomy j k with hlt | heq | hgt
  · exact absurd h (Nat.ne_of_lt (start_lt_start hne hlt hk))
  · exact heq
  · exact absurd h.symm (Nat.ne_of_lt (start_lt_start hne hgt hj))

omit hne in
theorem sum_length (ls : List (List α)) :
    ∑ j ∈ Finset.range ls.length, (piece ls j).length = ls.flatten.length := by
  have hstart : ∀ n ≤ ls.length, ∑ j ∈ Finset.range n, (piece ls j).length = start ls n := by
    intro n hn
    induction n with
    | zero => rfl
    | succ n ih =>
        rw [Finset.sum_range_succ, ih (Nat.le_of_succ_le hn), start_succ hn]
  rw [hstart ls.length (Nat.le_refl _), start, List.take_length]

omit hne in
/-- Different pieces are together no longer than the list. -/
theorem sum_le {S : Finset ℕ} {f : ℕ → ℕ} (hf : ∀ k ∈ S, f k < ls.length)
    (hinj : Set.InjOn f S) : ∑ k ∈ S, (piece ls (f k)).length ≤ ls.flatten.length := by
  rw [← sum_length, ← Finset.sum_image (f := fun j => (piece ls j).length) hinj]
  refine Finset.sum_le_sum_of_subset fun j hj => ?_
  obtain ⟨k, hk, rfl⟩ := Finset.mem_image.1 hj
  exact Finset.mem_range.2 (hf k hk)

/-- Different pieces that are together as long as the list are all pieces. -/
theorem exists_of_le_sum {S : Finset ℕ} {f : ℕ → ℕ} (hf : ∀ k ∈ S, f k < ls.length)
    (hinj : Set.InjOn f S) (hle : ls.flatten.length ≤ ∑ k ∈ S, (piece ls (f k)).length)
    (hj : j < ls.length) : ∃ k ∈ S, f k = j := by
  by_contra hmissing
  rw [← sum_length, ← Finset.sum_image (f := fun j => (piece ls j).length) hinj] at hle
  refine absurd hle (Nat.not_le.2 ?_)
  refine Finset.sum_lt_sum_of_subset (i := j) (fun i hi => ?_) (Finset.mem_range.2 hj) ?_
    (length_piece_pos hne hj) fun _ _ _ => Nat.zero_le _
  · obtain ⟨k, hk, rfl⟩ := Finset.mem_image.1 hi
    exact Finset.mem_range.2 (hf k hk)
  · intro hmem
    obtain ⟨k, hk, hkj⟩ := Finset.mem_image.1 hmem
    exact hmissing ⟨k, hk, hkj⟩

end Pieces
