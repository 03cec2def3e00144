import Mathlib.Data.List.Dedup
import Mathlib.Data.List.Perm.Basic

/-!
# Tables of recent elements

A table of fixed size keeps the latest element of each key, the most recent one
first: a new element goes to the front, and out goes the earlier element of its
key or, if there is none, the last element of the table. `recents log` is what
such a table ought to hold for a log of elements, the latest first. As long as
the log has no more keys than the table has places, that is what it holds, and
a lookup in the table is one in the log.
-/

namespace Recent

variable {α β : Type*} [DecidableEq α] (key : β → α)

/-- Put an element at the front. -/
def register (x : β) (l : List β) : List β :=
  x :: if l.any (key · = key x) then l.eraseP (key · = key x) else l.dropLast

/-- The latest element of each key, the most recent one first. -/
def recents : List β → List β
  | [] => []
  | x :: log => x :: (recents log).filter (key · ≠ key x)

variable {key}

theorem mem_map_recents {a : α} {log : List β} : a ∈ (recents key log).map key ↔ a ∈ log.map key := by
  induction log with
  | nil => rfl
  | cons x log ih =>
      rw [recents, List.map_cons, List.map_cons, List.mem_cons, List.mem_cons, ← ih]
      by_cases ha : a = key x
      · simp [ha]
      · have hne : ∀ y, key y = a → key y ≠ key x := fun y hy hyx => ha (hy.symm.trans hyx)
        simp only [ha, false_or, List.mem_map, List.mem_filter, decide_eq_true_eq]
        exact ⟨fun ⟨y, hy, hya⟩ => ⟨y, hy.1, hya⟩, fun ⟨y, hy, hya⟩ => ⟨y, ⟨hy, hne y hya⟩, hya⟩⟩

theorem nodup_recents (log : List β) : ((recents key log).map key).Nodup := by
  induction log with
  | nil => exact List.nodup_nil
  | cons x log ih =>
      rw [recents, List.map_cons, List.nodup_cons]
      refine ⟨fun hmem => ?_, ih.sublist (List.filter_sublist.map key)⟩
      obtain ⟨y, hy, hyx⟩ := List.mem_map.1 hmem
      simpa [hyx] using List.of_mem_filter hy

/-- There are as many recent elements as keys. -/
theorem length_recents (log : List β) :
    (recents key log).length = (log.map key).dedup.length := by
  have hperm : ((recents key log).map key).Perm (log.map key).dedup :=
    (List.perm_ext_iff_of_nodup (nodup_recents log) (List.nodup_dedup _)).2 fun a => by
      rw [List.mem_dedup, mem_map_recents]
  simpa using hperm.length_eq

/-- The lookup of a key finds its latest element. -/
theorem find?_recents (a : α) (log : List β) :
    (recents key log).find? (key · = a) = log.find? (key · = a) := by
  induction log with
  | nil => rfl
  | cons x log ih =>
      rw [recents, List.find?_cons, List.find?_cons, ← ih]
      by_cases ha : key x = a
      · simp [ha]
      · simp only [ha, decide_false, List.find?_filter]
        congr 1
        funext y
        by_cases hy : key y = a
        · simp [hy, Ne.symm ha]
        · simp [hy]

theorem eraseP_eq_filter {a : α} {l : List β} (hnodup : (l.map key).Nodup) :
    l.eraseP (key · = a) = l.filter (key · ≠ a) := by
  induction l with
  | nil => rfl
  | cons x l ih =>
      rw [List.map_cons, List.nodup_cons] at hnodup
      by_cases hx : key x = a
      · have hl : ∀ y ∈ l, decide (key y ≠ a) = true := by
          intro y hy
          rw [decide_eq_true_eq]
          exact fun hya => hnodup.1 (List.mem_map.2 ⟨y, hy, hya.trans hx.symm⟩)
        rw [List.eraseP_cons_of_pos (by simpa using hx), List.filter_cons_of_neg (by simpa using hx),
          List.filter_eq_self.2 hl]
      · rw [List.eraseP_cons_of_neg (by simpa using hx), List.filter_cons_of_pos (by simpa using hx),
          ih hnodup.2]

/-- The table `l` holds the recent elements of `log`, and blanks. -/
def Holds (key : β → α) (blank : β) (log l : List β) : Prop :=
  ∃ k, l = recents key log ++ List.replicate k blank

variable {blank : β} {log l : List β}

theorem holds_nil (blank : β) (k : ℕ) : Holds key blank [] (List.replicate k blank) := ⟨k, rfl⟩

theorem Holds.find? (h : Holds key blank log l) {a : α} (ha : a ≠ key blank) :
    l.find? (key · = a) = log.find? (key · = a) := by
  obtain ⟨k, rfl⟩ := h
  have hblank : (List.replicate k blank).find? (key · = a) = none := by
    rw [List.find?_eq_none]
    intro y hy
    rw [List.eq_of_mem_replicate hy]
    simpa using ha.symm
  rw [List.find?_append, hblank, find?_recents, Option.or_none]

/-- A new element is registered, if its key has a place. -/
theorem Holds.register (h : Holds key blank log l) {x : β} (hx : key x ≠ key blank)
    (hlength : ((x :: log).map key).dedup.length ≤ l.length) :
    Holds key blank (x :: log) (Recent.register key x l) ∧
      (Recent.register key x l).length = l.length := by
  obtain ⟨k, rfl⟩ := h
  rw [← length_recents, recents, List.length_cons, List.length_append, List.length_replicate]
    at hlength
  by_cases hmem : key x ∈ (recents key log).map key
  · obtain ⟨y, hy, hyx⟩ := List.mem_map.1 hmem
    have hany : (recents key log ++ List.replicate k blank).any (key · = key x) = true :=
      List.any_eq_true.2 ⟨y, List.mem_append_left _ hy, by simpa using hyx⟩
    have herase : (recents key log ++ List.replicate k blank).eraseP (key · = key x) =
        (recents key log).filter (key · ≠ key x) ++ List.replicate k blank := by
      rw [List.eraseP_append_left (by simpa using hyx) _ hy, eraseP_eq_filter (nodup_recents log)]
    refine ⟨⟨k, ?_⟩, ?_⟩
    · rw [Recent.register, if_pos hany, herase, recents, List.cons_append]
    · have hpos : 0 < (recents key log ++ List.replicate k blank).length :=
        List.length_pos_of_mem (List.mem_append_left _ hy)
      rw [Recent.register, if_pos hany, List.length_cons, List.length_eraseP, if_pos hany]
      omega
  · have hfilter : (recents key log).filter (key · ≠ key x) = recents key log :=
      List.filter_eq_self.2 fun y hy => by
        rw [decide_eq_true_eq]
        exact fun hyx => hmem (List.mem_map.2 ⟨y, hy, hyx⟩)
    have hany : (recents key log ++ List.replicate k blank).any (key · = key x) = false := by
      rw [List.any_eq_false]
      intro y hy
      rw [decide_eq_true_eq]
      rcases List.mem_append.1 hy with hy | hy
      · exact fun hyx => hmem (List.mem_map.2 ⟨y, hy, hyx⟩)
      · exact fun hyx => hx (List.eq_of_mem_replicate hy ▸ hyx.symm)
    rw [hfilter] at hlength
    obtain ⟨k, rfl⟩ : ∃ j, k = j + 1 := ⟨k - 1, by omega⟩
    have hdrop : (recents key log ++ List.replicate (k + 1) blank).dropLast =
        recents key log ++ List.replicate k blank := by
      rw [List.replicate_succ', ← List.append_assoc, List.dropLast_concat]
    refine ⟨⟨k, ?_⟩, ?_⟩
    · rw [Recent.register, hany, if_neg Bool.false_ne_true, hdrop, recents, hfilter,
        List.cons_append]
    · rw [Recent.register, hany, if_neg Bool.false_ne_true, hdrop]
      simp only [List.length_cons, List.length_append, List.length_replicate]
      omega

end Recent
