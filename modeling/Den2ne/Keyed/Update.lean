import Mathlib.Data.List.Nodup

/-!
# Lists updated by key

A list whose elements carry keys, no key twice, is a finite map that remembers
the order of its elements. `Keyed.updateAt` changes the element of one key, as
a loop over the list does that acts on the matching elements only. The lemmas
say what such a loop does to the keys, to the lookup of a key and to the number
of elements with some property; for the count the keys must be distinct, or the
loop could act more than once.
-/

namespace Keyed

variable {α β : Type*} [DecidableEq α] (key : β → α)

/-- Change the elements with key `a`. -/
def updateAt (a : α) (f : β → β) (l : List β) : List β :=
  l.map fun x => if key x = a then f x else x

variable {key}

theorem updateAt_of_notMem {a : α} {f : β → β} {l : List β} (h : a ∉ l.map key) :
    updateAt key a f l = l := by
  induction l with
  | nil => rfl
  | cons x l ih =>
      rw [List.map_cons, List.mem_cons, not_or] at h
      rw [updateAt, List.map_cons, if_neg (Ne.symm h.1)]
      exact congrArg _ (ih h.2)

theorem map_key_updateAt {a : α} {f : β → β} (hf : ∀ x, key (f x) = key x) (l : List β) :
    (updateAt key a f l).map key = l.map key := by
  rw [updateAt, List.map_map]
  refine List.map_congr_left fun x _ => ?_
  rw [Function.comp_apply]
  split
  · exact hf x
  · rfl

@[simp] theorem length_updateAt (a : α) (f : β → β) (l : List β) :
    (updateAt key a f l).length = l.length := List.length_map _

theorem mem_updateAt {a : α} {f : β → β} {l : List β} {y : β} :
    y ∈ updateAt key a f l ↔ ∃ x ∈ l, (if key x = a then f x else x) = y := List.mem_map

/-- The number of elements with property `p` changes at one element only. -/
theorem countP_updateAt {a : α} {f : β → β} {l : List β} (hnodup : (l.map key).Nodup)
    {x : β} (hx : x ∈ l) (hkey : key x = a) (p : β → Bool) :
    (updateAt key a f l).countP p + (if p x then 1 else 0) =
      l.countP p + (if p (f x) then 1 else 0) := by
  induction l with
  | nil => cases hx
  | cons y l ih =>
      rw [List.map_cons, List.nodup_cons] at hnodup
      by_cases hy : key y = a
      · have hxy : x = y := by
          rcases List.mem_cons.1 hx with h | h
          · exact h
          · exact absurd (hy ▸ hkey ▸ List.mem_map_of_mem h) hnodup.1
        subst hxy
        have hrest : l.map (fun z => if key z = a then f z else z) = l :=
          updateAt_of_notMem (hkey ▸ hnodup.1)
        rw [updateAt, List.map_cons, if_pos hy, hrest, List.countP_cons, List.countP_cons]
        omega
      · have hx' : x ∈ l := by
          rcases List.mem_cons.1 hx with h | h
          · exact absurd (h ▸ hkey) hy
          · exact h
        have hrest := ih hnodup.2 hx'
        rw [updateAt, List.map_cons, if_neg hy, List.countP_cons, List.countP_cons]
        rw [updateAt] at hrest
        omega

/-- In a list without repeated keys, an element is what the lookup of its key finds. -/
theorem find?_eq_some_iff {l : List β} (hnodup : (l.map key).Nodup) {a : α} {x : β} :
    l.find? (key · = a) = some x ↔ x ∈ l ∧ key x = a := by
  constructor
  · intro h
    exact ⟨List.mem_of_find?_eq_some h, by simpa using List.find?_some h⟩
  · rintro ⟨hx, hkey⟩
    cases hfind : l.find? (key · = a) with
    | none => exact absurd hkey (by simpa using List.find?_eq_none.1 hfind x hx)
    | some y =>
        have hy : key y = a := by simpa using List.find?_some hfind
        have hxy := List.inj_on_of_nodup_map hnodup (List.mem_of_find?_eq_some hfind) hx
          (hy.trans hkey.symm)
        rw [hxy]

omit [DecidableEq α] in
/-- Without repeated keys, elements that all have the same key are at most one. -/
theorem countP_le_one {l : List β} (hnodup : (l.map key).Nodup) {p : β → Bool} {a : α}
    (h : ∀ x ∈ l, p x → key x = a) : l.countP p ≤ 1 := by
  have hall : ∀ b ∈ (l.filter p).map key, b = a := by
    intro b hb
    obtain ⟨x, hx, rfl⟩ := List.mem_map.1 hb
    exact h x (List.mem_of_mem_filter hx) (List.of_mem_filter hx)
  have hfilter : ((l.filter p).map key).Nodup := hnodup.sublist (List.filter_sublist.map key)
  rw [List.eq_replicate_of_mem hall, List.nodup_replicate, List.length_map] at hfilter
  rw [List.countP_eq_length_filter]
  exact hfilter

omit [DecidableEq α] in
/-- Removing the first element with property `p` removes the one that the
search for it finds. -/
theorem exists_append_of_find? {p : β → Bool} {l : List β} {x : β} (h : l.find? p = some x) :
    ∃ l₁ l₂, l = l₁ ++ x :: l₂ ∧ l.eraseP p = l₁ ++ l₂ := by
  obtain ⟨hx, l₁, l₂, rfl, hl₁⟩ := List.find?_eq_some_iff_append.1 h
  refine ⟨l₁, l₂, rfl, ?_⟩
  rw [List.eraseP_append_right]
  · rw [List.eraseP_cons_of_pos hx]
  · intro y hy
    simpa using hl₁ y hy

end Keyed
