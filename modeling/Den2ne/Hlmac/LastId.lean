import Den2ne.Hlmac.Address

/-!
# The last id

`hlmac_add_new_id` and `hlmac_remove_Last_id` with their loops: each copies the ids into a new
buffer, cell by cell and with an index of 8 bits. What `malloc` leaves in the new buffer is a
parameter. The loops copy what the functions on address values say, and to remove the id that
was added gives back the address, as long as the length does not wrap.
-/

namespace Den2ne

namespace Copied

/-- A new buffer of `n` cells that holds what was there before. -/
def malloc (old : ℕ → UInt8) (n : ℕ) : List UInt8 := (List.range n).map old

/-- `for (; i < n; i++) address[i] = temp[i]`: the index at the end and the buffer. -/
def copyIds (n : UInt8) (temp : List UInt8) (i : UInt8) (address : List UInt8) :
    UInt8 × List UInt8 :=
  if i < n then copyIds n temp (i + 1) (address.set i.toNat (temp.getD i.toNat 0))
  else (i, address)
termination_by n.toNat - i.toNat
decreasing_by
  have hlt : i.toNat < n.toNat := UInt8.lt_iff_toNat_lt.1 ‹i < n›
  have hn := n.toNat_lt
  rw [UInt8.toNat_add, UInt8.toNat_one]
  omega

def hlmacAddNewId (old : ℕ → UInt8) (addr : HlmacAddr) (newId : UInt8) : HlmacAddr :=
  let temp := addr.address.getD []
  let (i, address) := copyIds addr.len temp 0 (malloc old (addr.len.toNat + 1))
  ⟨some (address.set i.toNat newId), addr.len + 1⟩

def hlmacRemoveLastId (old : ℕ → UInt8) (addr : HlmacAddr) : HlmacAddr :=
  if addr.len = 0 then addr
  else if addr.len = 1 then ⟨none, 0⟩
  else
    let temp := addr.address.getD []
    let (_, address) := copyIds (addr.len - 1) temp 0 (malloc old (addr.len.toNat - 1))
    ⟨some address, addr.len - 1⟩

end Copied

/-- The address of an id sequence as the program holds it: without ids there is no buffer. -/
def HlmacAddr.spell (ids : List UInt8) : HlmacAddr :=
  if ids = [] then unspecifiedHlmacAddress else HlmacAddr.ofIds ids

variable {a : HlmacAddr} {ids : List UInt8}

/-! ## What is copied -/

namespace Copied

@[simp] theorem length_malloc (old : ℕ → UInt8) (n : ℕ) : (malloc old n).length = n := by
  simp [malloc]

/-- The loop copies the cells that are left and ends at `n`. -/
theorem copyIds_eq {n i : UInt8} {temp address : List UInt8} (hi : i ≤ n)
    (htemp : n.toNat ≤ temp.length) (haddress : n.toNat ≤ address.length)
    (hcopied : address.take i.toNat = temp.take i.toNat) :
    copyIds n temp i address = (n, temp.take n.toNat ++ address.drop n.toNat) := by
  induction i, address using copyIds.induct n temp with
  | case1 i address hlt ih =>
      have hnat : i.toNat < n.toNat := UInt8.lt_iff_toNat_lt.1 hlt
      have hn := n.toNat_lt
      have hnext : (i + 1).toNat = i.toNat + 1 := by
        rw [UInt8.toNat_add, UInt8.toNat_one]
        omega
      have hcell : temp.getD i.toNat 0 = temp[i.toNat] := by
        rw [List.getD_eq_getElem?_getD, List.getElem?_eq_getElem (by omega), Option.getD_some]
      rw [copyIds, if_pos hlt, ih, List.drop_set_of_lt hnat]
      · rw [UInt8.le_iff_toNat_le, hnext]
        omega
      · rw [List.length_set]
        exact haddress
      · rw [hnext, hcell, List.take_succ_eq_append_getElem (by rw [List.length_set]; omega),
          List.take_set_of_le (Nat.le_refl _), List.getElem_set_self, hcopied,
          ← List.take_succ_eq_append_getElem]
  | case2 i address hge =>
      have heq : i = n := UInt8.le_antisymm hi (UInt8.not_lt.1 hge)
      subst heq
      rw [copyIds, if_neg hge, ← hcopied, List.take_append_drop]

theorem copyIds_malloc {n : UInt8} {temp : List UInt8} {k : ℕ} (old : ℕ → UInt8)
    (htemp : n.toNat ≤ temp.length) (hk : n.toNat ≤ k) :
    copyIds n temp 0 (malloc old k) = (n, temp.take n.toNat ++ (malloc old k).drop n.toNat) :=
  copyIds_eq (UInt8.le_iff_toNat_le.2 (Nat.zero_le _)) htemp (by rw [length_malloc]; exact hk) rfl

/-- The copying function computes the function on values. -/
theorem hlmacAddNewId_eq (old : ℕ → UInt8) (ha : a.Backed) (newId : UInt8) :
    hlmacAddNewId old a newId = Den2ne.hlmacAddNewId a newId := by
  have hlen : a.ids.length = a.len.toNat := List.length_take_of_le ha
  have hcell : (malloc old (a.len.toNat + 1)).drop a.len.toNat = [old a.len.toNat] := by
    rw [malloc, List.range_succ, List.map_append, List.drop_left' (by simp)]
    rfl
  rw [hlmacAddNewId, copyIds_malloc old ha (Nat.le_succ _), hcell]
  change (⟨some ((a.ids ++ [old a.len.toNat]).set a.len.toNat newId), _⟩ : HlmacAddr) = _
  rw [List.set_append_right _ _ (Nat.le_of_eq hlen), hlen, Nat.sub_self]
  rfl

theorem hlmacRemoveLastId_eq (old : ℕ → UInt8) (ha : a.Backed) :
    hlmacRemoveLastId old a = Den2ne.hlmacRemoveLastId a := by
  rw [hlmacRemoveLastId, Den2ne.hlmacRemoveLastId]
  split
  · rfl
  · rename_i h0
    split
    · rfl
    · have hpos : 1 ≤ a.len.toNat := Nat.pos_of_ne_zero fun h => h0 (UInt8.toNat_inj.1 h)
      have hsub : (a.len - 1).toNat = a.len.toNat - 1 :=
        UInt8.toNat_sub_of_le _ _ (UInt8.le_iff_toNat_le.2 hpos)
      have hlen : a.len.toNat ≤ (a.address.getD []).length := ha
      have hids : a.ids.dropLast = (a.address.getD []).take (a.len.toNat - 1) := by
        rw [HlmacAddr.ids, List.dropLast_eq_take, List.length_take_of_le ha, List.take_take,
          Nat.min_eq_left (Nat.sub_le _ _)]
      have htemp : (a.len - 1).toNat ≤ (a.address.getD []).length := by omega
      have hcopy := copyIds_malloc old htemp (Nat.le_of_eq hsub)
      rw [hsub, List.drop_of_length_le (by simp), List.append_nil, ← hids] at hcopy
      simp only [hcopy]

end Copied

/-! ## Adding and removing -/

theorem HlmacAddr.spell_of_ne_nil (h : ids ≠ []) : HlmacAddr.spell ids = HlmacAddr.ofIds ids :=
  if_neg h

theorem HlmacAddr.toNat_spell_len (h : ids.length ≤ 255) :
    (HlmacAddr.spell ids).len.toNat = ids.length := by
  rw [spell]
  split
  · rename_i hnil
    rw [hnil]
    rfl
  · exact toNat_ofIds_len h

theorem HlmacAddr.ids_spell (h : ids.length ≤ 255) : (HlmacAddr.spell ids).ids = ids := by
  rw [spell]
  split
  · rename_i hnil
    rw [hnil]
    rfl
  · exact ids_ofIds h

theorem HlmacAddr.backed_spell (h : ids.length ≤ 255) : (HlmacAddr.spell ids).Backed :=
  backed_iff.2 (by rw [ids_spell h, toNat_spell_len h])

/-- Below the wrap of the length the id is appended. -/
theorem hlmacAddNewId_spell (h : ids.length < 255) (newId : UInt8) :
    hlmacAddNewId (HlmacAddr.spell ids) newId = HlmacAddr.ofIds (ids ++ [newId]) := by
  cases ids with
  | nil => rfl
  | cons id ids =>
      rw [HlmacAddr.spell_of_ne_nil (List.cons_ne_nil id ids), hlmacAddNewId_ofIds h]

theorem hlmacRemoveLastId_append (h : ids.length < 255) (newId : UInt8) :
    hlmacRemoveLastId (HlmacAddr.ofIds (ids ++ [newId])) = HlmacAddr.spell ids := by
  cases ids with
  | nil => rfl
  | cons id ids =>
      have hlen : (id :: ids ++ [newId]).length = (id :: ids).length + 1 := List.length_append
      rw [hlmacRemoveLastId_ofIds (by omega) (by simp), List.dropLast_concat,
        HlmacAddr.spell_of_ne_nil (List.cons_ne_nil id ids)]

/-- After 255 ids the length wraps to 0. -/
theorem len_hlmacAddNewId_of_full (h : ids.length = 255) (newId : UInt8) :
    (hlmacAddNewId (HlmacAddr.spell ids) newId).len = 0 := by
  have hlen := HlmacAddr.toNat_spell_len (Nat.le_of_eq h)
  rw [h] at hlen
  have hmax : (HlmacAddr.spell ids).len = 255 := UInt8.toNat_inj.1 hlen
  rw [hlmacAddNewId, hmax]
  rfl

/-- The id is appended, the length grows by one, and to remove the id again gives back the
address, exactly if there were less than 255 ids. -/
theorem last_id_undone_iff (old old' : ℕ → UInt8) (h : ids.length ≤ 255) (newId : UInt8) :
    ((Copied.hlmacAddNewId old (HlmacAddr.spell ids) newId).ids = ids ++ [newId] ∧
      (Copied.hlmacAddNewId old (HlmacAddr.spell ids) newId).len.toNat =
        (HlmacAddr.spell ids).len.toNat + 1 ∧
      Copied.hlmacRemoveLastId old' (Copied.hlmacAddNewId old (HlmacAddr.spell ids) newId) =
        HlmacAddr.spell ids) ↔ ids.length < 255 := by
  rw [Copied.hlmacAddNewId_eq old (HlmacAddr.backed_spell h)]
  constructor
  · rintro ⟨-, hlen, -⟩
    by_contra hfull
    rw [len_hlmacAddNewId_of_full (Nat.le_antisymm h (Nat.not_lt.1 hfull))] at hlen
    cases hlen
  · intro hlt
    have hlength : (ids ++ [newId]).length ≤ 255 := by
      rw [List.length_append, List.length_singleton]
      exact hlt
    have hids := HlmacAddr.ids_ofIds hlength
    have hlen := HlmacAddr.toNat_ofIds_len hlength
    rw [hlmacAddNewId_spell hlt, HlmacAddr.toNat_spell_len h]
    refine ⟨hids, hlen.trans List.length_append, ?_⟩
    rw [Copied.hlmacRemoveLastId_eq old' (HlmacAddr.backed_iff.2 (by rw [hids, hlen])),
      hlmacRemoveLastId_append hlt]

theorem last_id_undone_iff_three :
    ((Copied.hlmacAddNewId (fun _ => 0) (HlmacAddr.spell [1, 2]) 3).ids = [1, 2] ++ [3] ∧
      (Copied.hlmacAddNewId (fun _ => 0) (HlmacAddr.spell [1, 2]) 3).len.toNat =
        (HlmacAddr.spell [1, 2]).len.toNat + 1 ∧
      Copied.hlmacRemoveLastId (fun _ => 7)
          (Copied.hlmacAddNewId (fun _ => 0) (HlmacAddr.spell [1, 2]) 3) =
        HlmacAddr.spell [1, 2]) ↔ [(1 : UInt8), 2].length < 255 :=
  last_id_undone_iff _ _ (by decide) 3

/-- With 255 ids the length is 0 after an id was added. -/
theorem last_id_not_undone :
    ¬ ∀ (old old' : ℕ → UInt8) (ids : List UInt8), ids.length ≤ 255 → ∀ newId,
      (Copied.hlmacAddNewId old (HlmacAddr.spell ids) newId).ids = ids ++ [newId] ∧
        (Copied.hlmacAddNewId old (HlmacAddr.spell ids) newId).len.toNat =
          (HlmacAddr.spell ids).len.toNat + 1 ∧
        Copied.hlmacRemoveLastId old' (Copied.hlmacAddNewId old (HlmacAddr.spell ids) newId) =
          HlmacAddr.spell ids := by
  intro hall
  have hfull := Nat.le_of_eq (List.length_replicate (n := 255) (a := (1 : UInt8)))
  have hlen := (hall (fun _ => 0) (fun _ => 0) _ hfull 2).2.1
  rw [Copied.hlmacAddNewId_eq _ (HlmacAddr.backed_spell hfull),
    len_hlmacAddNewId_of_full List.length_replicate, HlmacAddr.toNat_spell_len hfull,
    List.length_replicate] at hlen
  exact absurd hlen (by decide)

end Den2ne
