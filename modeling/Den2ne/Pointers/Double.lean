import Mathlib.Data.List.Nodup

/-!
# Doubly linked lists

`Double prev next p a xs` says that the pointers lead from `a` through the cells to the end, and
that every cell points back to the one before it, the first one to `p`. The rules say what is left
of a list when a cell is put before it or taken out of it, for any pointers that differ as they
should.
-/

namespace Pointers

variable {κ : Type*}

/-- From `a` through the cells to the end; the cell before the first one is `p`. -/
def Double (prev next : κ → Option κ) : Option κ → Option κ → List κ → Prop
  | _, a, [] => a = none
  | p, a, x :: xs => a = some x ∧ prev x = p ∧ Double prev next (some x) (next x) xs

variable {prev next prev' next' : κ → Option κ} {p a : Option κ} {xs l r : List κ} {x : κ}

theorem Double.congr (h : Double prev next p a xs)
    (heq : ∀ x ∈ xs, prev' x = prev x ∧ next' x = next x) : Double prev' next' p a xs := by
  induction xs generalizing p a with
  | nil => exact h
  | cons x xs ih =>
      obtain ⟨ha, hp, hrest⟩ := h
      obtain ⟨hprev, hnext⟩ := heq x List.mem_cons_self
      refine ⟨ha, hprev.trans hp, ?_⟩
      rw [hnext]
      exact ih hrest fun y hy => heq y (List.mem_cons_of_mem x hy)

theorem Double.head? (h : Double prev next p a xs) : a = xs.head? := by
  cases xs with
  | nil => exact h
  | cons x xs => exact h.1

/-- What is behind a cell. -/
theorem Double.behind (h : Double prev next p a (l ++ x :: r)) :
    Double prev next (some x) (next x) r := by
  induction l generalizing p a with
  | nil => exact h.2.2
  | cons y l ih => exact ih h.2.2

theorem Double.prev_eq (h : Double prev next p a (l ++ x :: r)) :
    prev x = l.getLast?.or p := by
  induction l generalizing p a with
  | nil => exact h.2.1
  | cons y l ih =>
      rw [ih h.2.2, List.getLast?_cons]
      cases l.getLast? <;> rfl

theorem Double.next_eq (h : Double prev next p a (l ++ x :: r)) : next x = r.head? :=
  h.behind.head?

/-- A pointer leads to a cell of the list. -/
theorem Double.mem_of_next {y : κ} (h : Double prev next p a xs) (hx : x ∈ xs)
    (hy : next x = some y) : y ∈ xs := by
  obtain ⟨l, r, rfl⟩ := List.append_of_mem hx
  rw [h.next_eq] at hy
  exact List.mem_append_right l (List.mem_cons_of_mem x (List.mem_of_mem_head? hy))

/-- A cell is put before the list. -/
theorem Double.push (h : Double prev next none a xs) (hxs : xs.Nodup) (hprev : prev' x = none)
    (hnext : next' x = a) (hback : ∀ y, a = some y → prev' y = some x)
    (heq : ∀ y ∈ xs, (a ≠ some y → prev' y = prev y) ∧ next' y = next y) :
    Double prev' next' none (some x) (x :: xs) := by
  refine ⟨rfl, hprev, ?_⟩
  rw [hnext]
  cases xs with
  | nil => exact h
  | cons y xs =>
      obtain ⟨rfl, -, hrest⟩ := h
      refine ⟨rfl, hback y rfl, ?_⟩
      rw [(heq y List.mem_cons_self).2]
      refine hrest.congr fun z hz => ?_
      obtain ⟨hz', hnext'⟩ := heq z (List.mem_cons_of_mem y hz)
      refine ⟨hz' fun hsame => ?_, hnext'⟩
      obtain rfl := Option.some.inj hsame
      exact (List.nodup_cons.1 hxs).1 hz

/-- A cell is taken out of the list. -/
theorem Double.remove [DecidableEq κ] (h : Double prev next p a (l ++ x :: r))
    (hnodup : (l ++ x :: r).Nodup)
    (hp : ∀ y, p = some y → y ∉ l ++ x :: r)
    (hnext : ∀ y ∈ l ++ r, next' y = if prev x = some y then next x else next y)
    (hprev : ∀ y ∈ l ++ r, prev' y = if next x = some y then prev x else prev y) :
    Double prev' next' p (if l = [] then next x else a) (l ++ r) := by
  induction l generalizing p a with
  | nil =>
      obtain ⟨rfl, hx, hrest⟩ := h
      rw [if_pos rfl]
      rw [List.nil_append] at hnodup hp hnext hprev ⊢
      have hkeep : ∀ y ∈ r, next' y = next y := fun y hy => by
        rw [hnext y hy, if_neg]
        rw [hx]
        exact fun heq => hp y heq (List.mem_cons_of_mem x hy)
      cases r with
      | nil => exact hrest
      | cons y r =>
          obtain ⟨hy, -, hbehind⟩ := hrest
          refine ⟨hy, ?_, ?_⟩
          · rw [hprev y List.mem_cons_self, if_pos hy, hx]
          · rw [hkeep y List.mem_cons_self]
            refine hbehind.congr fun z hz => ⟨?_, hkeep z (List.mem_cons_of_mem y hz)⟩
            rw [hprev z (List.mem_cons_of_mem y hz), if_neg]
            rw [hy]
            intro heq
            obtain rfl := Option.some.inj heq
            exact (List.nodup_cons.1 (List.nodup_cons.1 hnodup).2).1 hz
  | cons z l ih =>
      obtain ⟨rfl, hz, hrest⟩ := h
      rw [if_neg (List.cons_ne_nil z l)]
      rw [List.cons_append] at hnodup hp hnext hprev ⊢
      obtain ⟨hzout, hnodup'⟩ := List.nodup_cons.1 hnodup
      have hxz : x ≠ z := fun heq => hzout (heq ▸ List.mem_append_right l List.mem_cons_self)
      refine ⟨rfl, ?_, ?_⟩
      · rw [hprev z List.mem_cons_self, if_neg, hz]
        rw [hrest.next_eq]
        exact fun heq => hzout
          (List.mem_append_right l (List.mem_cons_of_mem x (List.mem_of_mem_head? heq)))
      · have hstep : next' z = if l = [] then next x else next z := by
          rw [hnext z List.mem_cons_self]
          refine if_congr ?_ rfl rfl
          rw [hrest.prev_eq]
          cases hlast : l.getLast? with
          | none => exact iff_of_true rfl (List.getLast?_eq_none_iff.1 hlast)
          | some w =>
              have hw : w ∈ l := List.mem_of_getLast? hlast
              refine iff_of_false (fun heq => ?_) (List.ne_nil_of_mem hw)
              obtain rfl : w = z := Option.some.inj heq
              exact hzout (List.mem_append_left _ hw)
        rw [hstep]
        refine ih hrest hnodup' ?_ (fun y hy => hnext y (List.mem_cons_of_mem z hy))
          (fun y hy => hprev y (List.mem_cons_of_mem z hy))
        rintro y heq
        obtain rfl := Option.some.inj heq
        exact hzout

end Pointers
