import Mathlib.Data.List.Basic
import Mathlib.Data.Nat.Notation

/-!
# Ranges of a memory

A memory is a function on addresses. `load m p n` are the cells of the `n` addresses from `p` on,
and `store m p xs` writes the cells `xs` from `p` on; a copy is a store of what is loaded. The
rules say what is loaded after a store: the cells that were stored, and what was there before at
every range that the store does not meet.
-/

namespace Memory

variable {α : Type*}

/-- The cells from `p` on. -/
def load (m : ℕ → α) (p n : ℕ) : List α := (List.range n).map fun i => m (p + i)

/-- The memory with the cells `xs` from `p` on. -/
def store (m : ℕ → α) (p : ℕ) (xs : List α) : ℕ → α := fun i =>
  if p ≤ i then xs[i - p]?.getD (m i) else m i

variable {m m' : ℕ → α} {p q i n k : ℕ} {xs ys : List α}

@[simp] theorem length_load (m : ℕ → α) (p n : ℕ) : (load m p n).length = n := by
  simp [load]

@[simp] theorem load_zero (m : ℕ → α) (p : ℕ) : load m p 0 = [] := rfl

theorem load_add (m : ℕ → α) (p n k : ℕ) : load m p (n + k) = load m p n ++ load m (p + n) k := by
  rw [load, List.range_add, List.map_append, List.map_map]
  exact congrArg _ (List.map_congr_left fun i _ => congrArg m (Nat.add_assoc p n i).symm)

theorem load_succ (m : ℕ → α) (p n : ℕ) : load m p (n + 1) = m p :: load m (p + 1) n := by
  rw [Nat.add_comm, load_add]
  rfl

theorem load_congr (h : ∀ i, p ≤ i → i < p + n → m i = m' i) : load m p n = load m' p n := by
  refine List.map_congr_left fun i hi => h (p + i) (Nat.le_add_right p i) ?_
  exact Nat.add_lt_add_left (List.mem_range.1 hi) p

theorem getElem?_load (hi : i < n) : (load m p n)[i]? = some (m (p + i)) := by
  rw [load, List.getElem?_map, List.getElem?_range hi]
  rfl

theorem take_load (hk : k ≤ n) : (load m p n).take k = load m p k := by
  obtain ⟨l, rfl⟩ := Nat.exists_eq_add_of_le hk
  rw [load_add, List.take_left' (length_load m p k)]

theorem drop_load (m : ℕ → α) (p n k : ℕ) : (load m p n).drop k = load m (p + k) (n - k) := by
  by_cases hk : k ≤ n
  · obtain ⟨l, rfl⟩ := Nat.exists_eq_add_of_le hk
    rw [load_add, List.drop_left' (length_load m p k), Nat.add_sub_cancel_left]
  · rw [Nat.sub_eq_zero_of_le (Nat.le_of_not_le hk), load_zero, List.drop_eq_nil_of_le]
    rw [length_load]
    exact Nat.le_of_not_le hk

/-! ## Stores -/

theorem store_of_lt (h : i < p) : store m p xs i = m i := if_neg (Nat.not_le.2 h)

theorem store_of_ge (h : p ≤ i) : store m p xs i = xs[i - p]?.getD (m i) := if_pos h

theorem store_of_le (h : p + xs.length ≤ i) : store m p xs i = m i := by
  have hp : p ≤ i := Nat.le_trans (Nat.le_add_right _ _) h
  rw [store, if_pos hp, List.getElem?_eq_none (by omega)]
  rfl

theorem store_of_outside (h : i < p ∨ p + xs.length ≤ i) : store m p xs i = m i :=
  h.elim store_of_lt store_of_le

theorem store_add (h : i < xs.length) : store m p xs (p + i) = xs[i] := by
  rw [store, if_pos (Nat.le_add_right p i), Nat.add_sub_cancel_left, List.getElem?_eq_getElem h]
  rfl

theorem store_self (m : ℕ → α) (p : ℕ) (x : α) (xs : List α) : store m p (x :: xs) p = x := by
  rw [store_of_ge (Nat.le_refl p), Nat.sub_self]
  rfl

@[simp] theorem store_nil (m : ℕ → α) (p : ℕ) : store m p [] = m := by
  funext i
  rw [store]
  split <;> rfl

/-- What is stored is there. -/
theorem load_store (m : ℕ → α) (p : ℕ) (xs : List α) : load (store m p xs) p xs.length = xs := by
  refine List.ext_getElem? fun i => ?_
  by_cases hi : i < xs.length
  · rw [getElem?_load hi, store_add hi, List.getElem?_eq_getElem hi]
  · have hle := Nat.le_of_not_lt hi
    rw [List.getElem?_eq_none hle, List.getElem?_eq_none]
    rwa [length_load]

/-- A store changes nothing outside its range. -/
theorem load_store_of_disjoint (h : q + n ≤ p ∨ p + xs.length ≤ q) :
    load (store m p xs) q n = load m q n := by
  refine load_congr fun i hi hi' => ?_
  rcases h with h | h
  · exact store_of_lt (Nat.lt_of_lt_of_le hi' h)
  · exact store_of_le (Nat.le_trans h hi)

/-- A store in two parts, the first one first. -/
theorem store_append (m : ℕ → α) (p : ℕ) (xs ys : List α) :
    store m p (xs ++ ys) = store (store m p xs) (p + xs.length) ys := by
  funext i
  by_cases hi : i < p + xs.length
  · rw [store_of_lt hi, store, store]
    split
    · rw [List.getElem?_append_left (by omega)]
    · rfl
  · have hp : p ≤ i := by omega
    have hxs : store m p xs i = m i := store_of_le (Nat.le_of_not_lt hi)
    rw [store_of_ge hp, List.getElem?_append_right (by omega),
      store_of_ge (Nat.le_of_not_lt hi), hxs, Nat.sub_add_eq]

/-- A store in two parts, the last one first. -/
theorem store_append' (m : ℕ → α) (p : ℕ) (xs ys : List α) :
    store m p (xs ++ ys) = store (store m (p + xs.length) ys) p xs := by
  rw [store_append]
  funext i
  by_cases hi : i < p + xs.length
  · rw [store_of_lt hi, store, store]
    split
    · have hlt : i - p < xs.length := by omega
      rw [List.getElem?_eq_getElem hlt]
      rfl
    · exact (store_of_lt hi).symm
  · have hle := Nat.le_of_not_lt hi
    rw [store_of_le hle, store_of_ge hle, store_of_ge hle, store_of_le hle]

end Memory
