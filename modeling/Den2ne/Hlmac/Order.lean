import Den2ne.Hlmac.Address
import Den2ne.Padded.Compare
import Mathlib.Order.Nat

/-!
# The order of the addresses

`hlmac_cmp` compares the id sequences as if the shorter one were continued with zeros. So it is a
total preorder, whose equality is that of the sequences without the zeros at their ends.
-/

namespace Den2ne

/-- The ids without the zeros at their end. -/
def HlmacAddr.trimmed (a : HlmacAddr) : List UInt8 := a.ids.rdropWhile (· = 0)

/-- The result of `hlmac_cmp` for a comparison. -/
def orderingSign : Ordering → ℤ
  | .lt => 1
  | .eq => 0
  | .gt => -1

variable {a b c : HlmacAddr} {xs ys : List UInt8}

theorem orderingSign_swap (o : Ordering) : orderingSign o.swap = -orderingSign o := by
  cases o <;> rfl

/-- A sequence is greater than one without ids if it has an id that is not zero. -/
theorem compare_nil (ys : List UInt8) : Padded.compare [] (ys.map UInt8.toNat) =
    if ys.any (0 < ·) then .lt else .eq := by
  induction ys with
  | nil =>
      rw [List.map_nil, Padded.compare]
      rfl
  | cons y ys ih =>
      have hy : (⊥ : ℕ) < y.toNat ↔ 0 < y := by
        rw [UInt8.lt_iff_toNat_lt]
        rfl
      rw [List.map_cons, Padded.compare, ih, List.any_cons]
      by_cases h : 0 < y
      · rw [if_pos (hy.2 h), decide_eq_true h]
        rfl
      · rw [if_neg fun h' => h (hy.1 h'), decide_eq_false h, Bool.false_or]

/-- What the loops of `hlmac_cmp` find, on id sequences. -/
def cmpIds (xs ys : List UInt8) : ℤ :=
  match (xs.zip ys).find? fun p => p.1 ≠ p.2 with
  | some p => if p.1 < p.2 then 1 else -1
  | none =>
      if (ys.drop xs.length).any (0 < ·) then 1
      else if (xs.drop ys.length).any (0 < ·) then -1
      else 0

theorem cmpIds_cons_of_ne {x y : UInt8} (h : x ≠ y) (xs ys : List UInt8) :
    cmpIds (x :: xs) (y :: ys) = if x < y then 1 else -1 := by
  rw [cmpIds, List.zip_cons_cons, List.find?_cons_of_pos (by simpa using h)]

theorem cmpIds_cons (x : UInt8) (xs ys : List UInt8) :
    cmpIds (x :: xs) (x :: ys) = cmpIds xs ys := by
  rw [cmpIds, List.zip_cons_cons, List.find?_cons_of_neg (by simp)]
  rfl

theorem cmpIds_eq (xs ys : List UInt8) : cmpIds xs ys =
    orderingSign (Padded.compare (xs.map UInt8.toNat) (ys.map UInt8.toNat)) := by
  induction xs generalizing ys with
  | nil =>
      rw [List.map_nil, compare_nil, cmpIds, List.zip_nil_left, List.find?_nil, List.drop_nil,
        List.length_nil, List.drop_zero]
      cases ys.any (0 < ·) <;> rfl
  | cons x xs ih =>
      cases ys with
      | nil =>
          rw [← Padded.compare_swap, orderingSign_swap, List.map_nil, compare_nil, cmpIds,
            List.zip_nil_right, List.find?_nil, List.drop_nil, List.length_nil, List.drop_zero]
          cases (x :: xs).any (0 < ·) <;> rfl
      | cons y ys =>
          rw [List.map_cons, List.map_cons, Padded.compare]
          by_cases hxy : x = y
          · subst hxy
            rw [if_neg (lt_irrefl _), if_neg (lt_irrefl _), cmpIds_cons, ih]
          · rw [cmpIds_cons_of_ne hxy]
            by_cases hlt : x < y
            · rw [if_pos hlt, if_pos (UInt8.lt_iff_toNat_lt.1 hlt)]
              rfl
            · have hle : y.toNat ≤ x.toNat := Nat.le_of_not_lt fun h =>
                hlt (UInt8.lt_iff_toNat_lt.2 h)
              have hne : x.toNat ≠ y.toNat := fun h => hxy (UInt8.toNat_inj.1 h)
              rw [if_neg hlt, if_neg (Nat.not_lt.2 hle), if_pos (by omega)]
              rfl

/-- `hlmac_cmp` on addresses whose buffers hold their ids. -/
theorem hlmacCmp_eq_cmpIds (ha : a.Backed) (hb : b.Backed) :
    hlmacCmp a b = cmpIds a.ids b.ids := by
  have hxs := (HlmacAddr.backed_iff.1 ha)
  have hys := (HlmacAddr.backed_iff.1 hb)
  have hzip : (a.ids.take (min a.len.toNat b.len.toNat)).zip
      (b.ids.take (min a.len.toNat b.len.toNat)) = a.ids.zip b.ids := by
    have hmin : a.ids.zip b.ids = _ := List.zip_eq_zip_take_min
    rw [hmin, hxs, hys]
  rw [hlmacCmp, cmpIds, hzip, hxs, hys]
  cases (a.ids.zip b.ids).find? fun p => p.1 ≠ p.2 with
  | some p => rfl
  | none =>
      dsimp only
      by_cases heq : a.len = b.len
      · rw [if_pos heq, heq, List.drop_of_length_le (by rw [hys]),
          List.drop_of_length_le (by rw [hxs, heq])]
        rfl
      · have hne : a.len.toNat ≠ b.len.toNat := fun h => heq (UInt8.toNat_inj.1 h)
        rw [if_neg heq]
        by_cases hlt : a.len < b.len
        · have hlt' := UInt8.lt_iff_toNat_lt.1 hlt
          rw [if_pos hlt, Nat.min_eq_left (Nat.le_of_lt hlt'),
            List.drop_of_length_le (i := b.len.toNat) (l := a.ids) (by omega)]
          rfl
        · have hlt' : b.len.toNat < a.len.toNat := by
            have hle : b.len.toNat ≤ a.len.toNat :=
              Nat.le_of_not_lt fun h => hlt (UInt8.lt_iff_toNat_lt.2 h)
            omega
          rw [if_neg hlt, if_pos (UInt8.lt_iff_toNat_lt.2 hlt'),
            Nat.min_eq_right (Nat.le_of_lt hlt'),
            List.drop_of_length_le (i := a.len.toNat) (l := b.ids) (by omega)]
          rfl

/-- `hlmac_cmp` is the comparison of the ids, a missing one counting as zero. -/
theorem hlmacCmp_eq (ha : a.Backed) (hb : b.Backed) :
    hlmacCmp a b =
      orderingSign (Padded.compare (a.ids.map UInt8.toNat) (b.ids.map UInt8.toNat)) := by
  rw [hlmacCmp_eq_cmpIds ha hb, cmpIds_eq]

theorem map_rdropWhile (xs : List UInt8) :
    (xs.rdropWhile (· = 0)).map UInt8.toNat = Padded.strip (xs.map UInt8.toNat) := by
  have hzero : ∀ x : UInt8, decide (x = 0) = decide (x.toNat = ⊥) := fun x =>
    decide_eq_decide.2 UInt8.toNat_inj.symm
  rw [Padded.strip, List.rdropWhile, List.rdropWhile, ← List.map_reverse, List.dropWhile_map,
    List.map_reverse]
  simp only [Function.comp_def, hzero]

/-- Addresses are equal for `hlmac_cmp` if they are without the zeros at their ends. -/
theorem hlmacCmp_eq_zero_iff (ha : a.Backed) (hb : b.Backed) :
    hlmacCmp a b = 0 ↔ a.trimmed = b.trimmed := by
  have hsign : ∀ o, orderingSign o = 0 ↔ o = .eq := by
    intro o
    cases o <;> decide
  have hinj : Function.Injective (List.map UInt8.toNat) :=
    List.map_injective_iff.2 fun _ _ => UInt8.toNat_inj.1
  rw [hlmacCmp_eq ha hb, hsign, Padded.compare_eq_eq_iff, ← map_rdropWhile, ← map_rdropWhile,
    hinj.eq_iff]
  rfl

theorem hlmacCmp_nonneg_iff (ha : a.Backed) (hb : b.Backed) :
    0 ≤ hlmacCmp a b ↔
      Padded.compare (a.ids.map UInt8.toNat) (b.ids.map UInt8.toNat) ≠ .gt := by
  rw [hlmacCmp_eq ha hb]
  cases Padded.compare (a.ids.map UInt8.toNat) (b.ids.map UInt8.toNat) <;> decide

/-- `hlmac_cmp` is a total preorder, and its error result does not occur. -/
theorem hlmacCmp_totalPreorder (ha : a.Backed) (hb : b.Backed) (hc : c.Backed) :
    (hlmacCmp a b = -1 ∨ hlmacCmp a b = 0 ∨ hlmacCmp a b = 1) ∧
      hlmacCmp a b = -hlmacCmp b a ∧
      (0 ≤ hlmacCmp a b → 0 ≤ hlmacCmp b c → 0 ≤ hlmacCmp a c) ∧
      (hlmacCmp a b = 0 ↔ a.trimmed = b.trimmed) ∧
      hlmacCmp a b ≠ -2 := by
  have hsign : ∀ o, orderingSign o = -1 ∨ orderingSign o = 0 ∨ orderingSign o = 1 := by
    intro o
    cases o <;> decide
  have hvalues : hlmacCmp a b = -1 ∨ hlmacCmp a b = 0 ∨ hlmacCmp a b = 1 := by
    rw [hlmacCmp_eq ha hb]
    exact hsign _
  refine ⟨hvalues, ?_, fun hab hbc => ?_, hlmacCmp_eq_zero_iff ha hb, by omega⟩
  · rw [hlmacCmp_eq ha hb, hlmacCmp_eq hb ha, ← Padded.compare_swap, orderingSign_swap]
  · rw [hlmacCmp_nonneg_iff ha hc]
    exact Padded.compare_ne_gt_trans ((hlmacCmp_nonneg_iff ha hb).1 hab)
      ((hlmacCmp_nonneg_iff hb hc).1 hbc)

theorem hlmacCmp_totalPreorder_zeros :
    hlmacCmp (HlmacAddr.ofIds [1, 0]) (HlmacAddr.ofIds [1]) = 0 ∧
      0 ≤ hlmacCmp (HlmacAddr.ofIds [1, 0]) (HlmacAddr.ofIds [1, 0, 2]) := by
  have h := hlmacCmp_totalPreorder
    (a := HlmacAddr.ofIds [1, 0]) (b := HlmacAddr.ofIds [1]) (c := HlmacAddr.ofIds [1, 0, 2])
    (by decide) (by decide) (by decide)
  have hzero := h.2.2.2.1.2 (by decide)
  exact ⟨hzero, h.2.2.1 (Int.le_of_eq hzero.symm) (by decide)⟩

end Den2ne
