import Mathlib.Data.List.Nodup
import Mathlib.Logic.Function.Basic

/-!
# Linked lists of cells

`Through next a cells b` says that the pointers lead from `a` through the cells, in this order, to
`b`; a linked list ends with no pointer. `unlinkFrom` takes a cell out of a list the way it is done
with one pointer per cell: it walks to the cell, turns the pointer of the one before it, and clears
the pointer of the cell itself. So a walk that goes on from a cell just taken out ends there.
-/

namespace Pointers

variable {κ : Type*}

/-- From `a` through the cells to `b`. -/
def Through (next : κ → Option κ) : Option κ → List κ → Option κ → Prop
  | a, [], b => a = b
  | a, x :: xs, b => a = some x ∧ Through next (next x) xs b

section Through

variable {next next' : κ → Option κ} {a b : Option κ} {xs ys : List κ} {x y : κ}

theorem through_append :
    Through next a (xs ++ ys) b ↔ ∃ m, Through next a xs m ∧ Through next m ys b := by
  induction xs generalizing a with
  | nil => exact ⟨fun h => ⟨a, rfl, h⟩, fun ⟨_, rfl, h⟩ => h⟩
  | cons x xs ih =>
      constructor
      · rintro ⟨rfl, h⟩
        obtain ⟨m, hxs, hys⟩ := ih.1 h
        exact ⟨m, ⟨rfl, hxs⟩, hys⟩
      · rintro ⟨m, ⟨rfl, hxs⟩, hys⟩
        exact ⟨rfl, ih.2 ⟨m, hxs, hys⟩⟩

/-- Only the pointers of the cells themselves count. -/
theorem Through.congr (h : Through next a xs b) (hnext : ∀ x ∈ xs, next' x = next x) :
    Through next' a xs b := by
  induction xs generalizing a with
  | nil => exact h
  | cons x xs ih =>
      refine ⟨h.1, ih ?_ fun y hy => hnext y (List.mem_cons_of_mem _ hy)⟩
      rw [hnext x List.mem_cons_self]
      exact h.2

variable [DecidableEq κ]

theorem Through.update (h : Through next a xs b) (hx : x ∉ xs) (c : Option κ) :
    Through (Function.update next x c) a xs b := by
  refine h.congr fun y hy => Function.update_of_ne ?_ _ _
  rintro rfl
  exact hx hy

end Through

section Unlink

variable [DecidableEq κ] {next : κ → Option κ} {head : Option κ} {item : κ} {before after : List κ}

/-- Take `item` out: from `cur` on, with `prev` before it. The result is the new head and the new
pointers. The number bounds the turns. -/
def unlinkFrom (next : κ → Option κ) (head : Option κ) (item : κ) :
    ℕ → Option κ → Option κ → Option κ × (κ → Option κ)
  | 0, _, _ => (head, next)
  | _ + 1, _, none => (head, next)
  | turns + 1, prev, some x =>
      if x = item then
        match prev with
        | none => (next x, Function.update next x none)
        | some y => (head, Function.update (Function.update next y (next x)) x none)
      else unlinkFrom next head item turns (some x) (next x)

/-- The walk finds the cell, with the last one of those before it. -/
theorem unlinkFrom_eq {turns : ℕ} {prev cur : Option κ}
    (h : Through next cur (before ++ item :: after) none) (hitem : item ∉ before)
    (hturns : before.length < turns) :
    unlinkFrom next head item turns prev cur =
      match before.getLast?.or prev with
      | none => (next item, Function.update next item none)
      | some y => (head, Function.update (Function.update next y (next item)) item none) := by
  induction before generalizing turns prev cur with
  | nil =>
      obtain ⟨turns, rfl⟩ : ∃ t, turns = t + 1 := ⟨turns - 1, by omega⟩
      obtain ⟨rfl, -⟩ := h
      rw [unlinkFrom.eq_def]
      dsimp only
      rw [if_pos rfl]
      cases prev <;> rfl
  | cons x before ih =>
      obtain ⟨turns, rfl⟩ : ∃ t, turns = t + 1 := ⟨turns - 1, by omega⟩
      obtain ⟨rfl, h⟩ := h
      have hx : x ≠ item := fun heq => hitem (heq ▸ List.mem_cons_self)
      rw [unlinkFrom.eq_def]
      dsimp only
      rw [if_neg hx, ih h (fun hmem => hitem (List.mem_cons_of_mem _ hmem))
        (by rw [List.length_cons] at hturns; omega), List.getLast?_cons]
      cases before.getLast? <;> rfl

/-- The list without the cell; and the cell points nowhere. -/
theorem through_unlinkFrom {turns : ℕ} (h : Through next head (before ++ item :: after) none)
    (hnodup : (before ++ item :: after).Nodup) (hturns : before.length < turns) :
    Through (unlinkFrom next head item turns none head).2
        (unlinkFrom next head item turns none head).1 (before ++ after) none ∧
      (unlinkFrom next head item turns none head).2 item = none := by
  obtain ⟨hbefore, hrest, hdisjoint⟩ := List.nodup_append.1 hnodup
  obtain ⟨hafter, -⟩ := List.nodup_cons.1 hrest
  have hitem : item ∉ before := fun hmem => hdisjoint item hmem item List.mem_cons_self rfl
  rw [unlinkFrom_eq h hitem hturns, Option.or_none]
  rcases List.eq_nil_or_concat' before with rfl | ⟨init, last, rfl⟩
  · obtain ⟨rfl, hafterward⟩ := h
    exact ⟨hafterward.update hafter none, Function.update_self ..⟩
  · rw [List.getLast?_concat]
    dsimp only [Option.some_or]
    refine ⟨?_, Function.update_self ..⟩
    obtain ⟨m, hinit, hlast⟩ := through_append.1 h
    obtain ⟨m', hstart, rfl, -⟩ := through_append.1 hinit
    obtain ⟨rfl, hafterward⟩ := hlast
    have hlast : last ∉ init := fun hmem =>
      (List.nodup_append.1 hbefore).2.2 last hmem last List.mem_cons_self rfl
    have hlast' : last ∉ after := fun hmem =>
      hdisjoint last (by simp) last (List.mem_cons_of_mem _ hmem) rfl
    have hne : last ≠ item := fun heq => hitem (heq ▸ by simp)
    have hinit' : item ∉ init := fun hmem => hitem (List.mem_append_left _ hmem)
    refine through_append.2 ⟨next item, through_append.2 ⟨some last, ?_, rfl, ?_⟩, ?_⟩
    · exact (hstart.update hlast _).update hinit' _
    · rw [Function.update_of_ne hne, Function.update_self]
      rfl
    · exact (hafterward.update hlast' _).update hafter _

end Unlink

end Pointers
