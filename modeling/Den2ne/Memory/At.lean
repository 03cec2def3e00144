import Den2ne.Memory.Range

/-!
# Cells in a memory

`At m p xs` says that the memory has the cells `xs` from `p` on. A list of cells is taken apart
with the rules below, which is how what was written is read back.
-/

namespace Memory

variable {α : Type*} {m m' : ℕ → α} {p q n : ℕ} {x : α} {xs ys : List α}

/-- The cells are in the memory from `p` on. -/
def At (m : ℕ → α) (p : ℕ) (xs : List α) : Prop := load m p xs.length = xs

@[simp] theorem at_nil (m : ℕ → α) (p : ℕ) : At m p [] := rfl

theorem at_cons : At m p (x :: xs) ↔ m p = x ∧ At m (p + 1) xs := by
  rw [At, At, List.length_cons, load_succ, List.cons.injEq]

theorem at_append : At m p (xs ++ ys) ↔ At m p xs ∧ At m (p + xs.length) ys := by
  induction xs generalizing p with
  | nil => exact ⟨fun h => ⟨at_nil m p, h⟩, fun h => h.2⟩
  | cons x xs ih =>
      rw [List.cons_append, at_cons, at_cons, ih, List.length_cons, and_assoc, Nat.add_assoc,
        Nat.add_comm 1]

theorem At.congr (h : At m p xs) (heq : ∀ i, p ≤ i → i < p + xs.length → m' i = m i) :
    At m' p xs := (load_congr heq).trans h

theorem At.take (h : At m p xs) (n : ℕ) : At m p (xs.take n) := by
  rw [← List.take_append_drop n xs, at_append] at h
  exact h.1

theorem at_store (m : ℕ → α) (p : ℕ) (xs : List α) : At (store m p xs) p xs := load_store m p xs

theorem At.store (h : At m p xs) (hout : p + xs.length ≤ q ∨ q + ys.length ≤ p) :
    At (store m q ys) p xs := (load_store_of_disjoint hout).trans h

end Memory
