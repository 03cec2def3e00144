import Mathlib.Data.List.Infix
import Den2ne.Hlmac.Address

/-!
# The HLMAC table

`hlmac-table.c` with `HLMAC_ADD_HLMAC == HLMAC_FIRST_HLMAC`. The table is the
list of entries together with its own counter `numberOfHlmacAddresses`, which
the functions read instead of the length of the list.

The loop test looks for the longest proper prefix of the candidate that the
table holds. It misses no such prefix (`hlmactableHasLoop_of_prefix`); the
other direction is not exact, since `hlmac_cmp` identifies addresses that
differ in trailing zero ids. The entries are values here: that the buffers they
point to may have been freed is for the functions on pointers, which agree with
these while the reads find what was stored.
-/

namespace Den2ne

/-- `hlmac_table_entry_t`. -/
structure HlmacTableEntry where
  address : HlmacAddr
  timestamp : ℕ
deriving DecidableEq, Repr

/-- `hlmac_table_entry_list` and `number_of_hlmac_addresses`. -/
structure HlmacTable where
  entries : List HlmacTableEntry
  numberOfHlmacAddresses : ℕ
deriving DecidableEq, Repr

/-- The table after boot. -/
def HlmacTable.empty : HlmacTable := ⟨[], 0⟩

def hlmactableClean (_ : HlmacTable) : HlmacTable := ⟨[], 0⟩

/-- A newer timestamp than the first entry's empties the table first. -/
def hlmactableRenew (t : HlmacTable) (timestamp : ℕ) : HlmacTable :=
  if 0 < t.numberOfHlmacAddresses then
    match t.entries with
    | [] => t
    | entry :: _ => if entry.timestamp < timestamp then hlmactableClean t else t
  else t

/-- `hlmactable_add` under `HLMAC_MAX_HLMAC = maxHlmac`: whether the address
was stored, and the table after the call. -/
def hlmactableAdd (maxHlmac : ℤ) (t : HlmacTable) (addr : HlmacAddr) (timestamp : ℕ) :
    Bool × HlmacTable :=
  let t := hlmactableRenew t timestamp
  if 255 ≤ t.numberOfHlmacAddresses then (false, t)
  else if maxHlmac = -1 ∨ (maxHlmac ≠ -1 ∧ (t.numberOfHlmacAddresses : ℤ) < maxHlmac) then
    (true, ⟨t.entries ++ [⟨addr, timestamp⟩], t.numberOfHlmacAddresses + 1⟩)
  else (false, t)

/-- The `while` loop of `hlmactable_get_longest_matchhed_prefix`: shorten the
address until it is in the table or empty. One id goes in every turn, so the
length of the address bounds the number of turns. -/
def longestMatchhedPrefix (t : HlmacTable) : ℕ → HlmacAddr → HlmacAddr
  | 0, addr => addr
  | turns + 1, addr =>
      if 0 < hlmacGetLen addr then
        if t.entries.any fun entry => hlmacCmp entry.address addr == 0 then addr
        else longestMatchhedPrefix t turns (hlmacRemoveLastId addr)
      else addr

def hlmactableGetLongestMatchhedPrefix (t : HlmacTable) (address : HlmacAddr) : HlmacAddr :=
  longestMatchhedPrefix t address.len.toNat
    (hlmacRemoveLastId ⟨some address.ids, address.len⟩)

def hlmactableHasLoop (t : HlmacTable) (addr : HlmacAddr) : Bool :=
  !hlmacIsUnspecifiedAddr (hlmactableGetLongestMatchhedPrefix t addr)

/-! ## Storing an address -/

/-- The counter of the table is the length of its list. -/
def HlmacTable.Counted (t : HlmacTable) : Prop := t.numberOfHlmacAddresses = t.entries.length

theorem HlmacTable.counted_empty : HlmacTable.empty.Counted := rfl

theorem HlmacTable.Counted.renew {t : HlmacTable} (h : t.Counted) (timestamp : ℕ) :
    (hlmactableRenew t timestamp).Counted := by
  unfold hlmactableRenew
  split
  · split
    · exact h
    · split
      · rfl
      · exact h
  · exact h

theorem HlmacTable.Counted.add {t : HlmacTable} (h : t.Counted) (maxHlmac : ℤ)
    (addr : HlmacAddr) (timestamp : ℕ) :
    (hlmactableAdd maxHlmac t addr timestamp).2.Counted := by
  have hr := h.renew timestamp
  simp only [hlmactableAdd]
  split
  · exact hr
  · split
    · simpa [HlmacTable.Counted] using hr
    · exact hr

/-- A table without room of its own keeps what the renewal left; otherwise
the address is the last entry. -/
theorem hlmactableAdd_cases (maxHlmac : ℤ) (t : HlmacTable) (addr : HlmacAddr)
    (timestamp : ℕ) :
    (hlmactableAdd maxHlmac t addr timestamp =
        (false, hlmactableRenew t timestamp)) ∨
    ((maxHlmac = -1 ∨ ((hlmactableRenew t timestamp).numberOfHlmacAddresses : ℤ) < maxHlmac) ∧
      (hlmactableRenew t timestamp).numberOfHlmacAddresses < 255 ∧
      hlmactableAdd maxHlmac t addr timestamp =
        (true, ⟨(hlmactableRenew t timestamp).entries ++ [⟨addr, timestamp⟩],
          (hlmactableRenew t timestamp).numberOfHlmacAddresses + 1⟩)) := by
  simp only [hlmactableAdd]
  split
  · exact .inl rfl
  · rename_i hfull
    split
    · rename_i hroom
      refine .inr ⟨?_, by omega, rfl⟩
      rcases hroom with h | ⟨-, h⟩
      · exact .inl h
      · exact .inr h
    · exact .inl rfl

theorem hlmactableRenew_of_newer {t : HlmacTable} (hc : t.Counted) {timestamp : ℕ}
    (hnew : ∀ entry ∈ t.entries, entry.timestamp < timestamp) :
    hlmactableRenew t timestamp = HlmacTable.empty := by
  obtain ⟨entries, number⟩ := t
  cases entries with
  | nil => simp_all [hlmactableRenew, HlmacTable.Counted, HlmacTable.empty]
  | cons entry rest =>
      have hnumber : number = rest.length + 1 := hc
      simp [hlmactableRenew, hlmactableClean, HlmacTable.empty, hnumber, hnew entry]

theorem hlmactableRenew_of_not_newer {t : HlmacTable} {timestamp : ℕ}
    (hold : ∀ entry ∈ t.entries, timestamp ≤ entry.timestamp) :
    hlmactableRenew t timestamp = t := by
  unfold hlmactableRenew
  split
  · split
    · rfl
    · rename_i entry rest heq
      have := hold entry (by simp [heq])
      rw [if_neg (by omega)]
  · rfl

/-- Only the first entry decides about the renewal. -/
theorem hlmactableRenew_of_head {t : HlmacTable} {entry : HlmacTableEntry}
    {rest : List HlmacTableEntry} {timestamp : ℕ} (ht : t.entries = entry :: rest)
    (hold : timestamp ≤ entry.timestamp) : hlmactableRenew t timestamp = t := by
  unfold hlmactableRenew
  rw [ht]
  dsimp only
  rw [if_neg (Nat.not_lt.2 hold), ite_self]

theorem hlmactableRenew_cases (t : HlmacTable) (timestamp : ℕ) :
    hlmactableRenew t timestamp = t ∨ hlmactableRenew t timestamp = HlmacTable.empty := by
  unfold hlmactableRenew
  split
  · split
    · exact .inl rfl
    · split
      · exact .inr rfl
      · exact .inl rfl
  · exact .inl rfl

/-- The bound admits at least one address. -/
def Roomy (maxHlmac : ℤ) : Prop := maxHlmac = -1 ∨ 0 < maxHlmac

/-- A table that is empty, perhaps only after the renewal, takes the address. -/
theorem fst_hlmactableAdd_of_nil {maxHlmac : ℤ} (hroom : Roomy maxHlmac) {t : HlmacTable}
    {addr : HlmacAddr} {timestamp : ℕ}
    (h0 : (hlmactableRenew t timestamp).numberOfHlmacAddresses = 0) :
    (hlmactableAdd maxHlmac t addr timestamp).1 = true := by
  simp only [hlmactableAdd, h0]
  rw [if_neg (by omega), if_pos]
  rcases hroom with h | h
  · exact .inl h
  · exact .inr ⟨by omega, by exact_mod_cast h⟩

/-- Without room no address is ever stored. -/
theorem fst_hlmactableAdd_of_not_roomy {maxHlmac : ℤ} (hroom : ¬ Roomy maxHlmac) {t : HlmacTable}
    {addr : HlmacAddr} {timestamp : ℕ} :
    (hlmactableAdd maxHlmac t addr timestamp).1 = false := by
  rcases hlmactableAdd_cases maxHlmac t addr timestamp with hc | ⟨hmax | hmax, -, -⟩
  · rw [hc]
  · exact absurd (.inl hmax) hroom
  · exact absurd (.inr (by omega)) hroom

/-- An address that is not stored leaves the table as it was. -/
theorem snd_hlmactableAdd_of_not_stored {maxHlmac : ℤ} (hroom : Roomy maxHlmac)
    {t : HlmacTable} {addr : HlmacAddr} {timestamp : ℕ}
    (h : (hlmactableAdd maxHlmac t addr timestamp).1 = false) :
    (hlmactableAdd maxHlmac t addr timestamp).2 = t := by
  rcases hlmactableAdd_cases maxHlmac t addr timestamp with hadd | ⟨-, -, hadd⟩
  · rcases hlmactableRenew_cases t timestamp with hr | hr
    · rw [hadd, hr]
    · rw [fst_hlmactableAdd_of_nil hroom (by rw [hr]; rfl)] at h
      cases h
  · rw [hadd] at h
    cases h

/-- A stored address is the last entry of the renewed table. -/
theorem entries_hlmactableAdd_of_stored {maxHlmac : ℤ} {t : HlmacTable} {addr : HlmacAddr}
    {timestamp : ℕ} (hc : t.Counted) (h : (hlmactableAdd maxHlmac t addr timestamp).1 = true) :
    (hlmactableAdd maxHlmac t addr timestamp).2.entries =
      (hlmactableRenew t timestamp).entries ++ [⟨addr, timestamp⟩] ∧
    (maxHlmac = -1 ∨ ((hlmactableRenew t timestamp).entries.length : ℤ) < maxHlmac) := by
  rcases hlmactableAdd_cases maxHlmac t addr timestamp with hadd | ⟨hroom, -, hadd⟩
  · rw [hadd] at h
    cases h
  · rw [hc.renew timestamp] at hroom
    exact ⟨by rw [hadd], hroom⟩

/-- An entry of the table after a store was there before or is the new one. -/
theorem mem_hlmactableAdd {maxHlmac : ℤ} {t : HlmacTable} {addr : HlmacAddr} {timestamp : ℕ}
    {entry : HlmacTableEntry} (h : entry ∈ (hlmactableAdd maxHlmac t addr timestamp).2.entries) :
    entry ∈ t.entries ∨
      ((hlmactableAdd maxHlmac t addr timestamp).1 = true ∧ entry = ⟨addr, timestamp⟩) := by
  have hrenew : ∀ entry ∈ (hlmactableRenew t timestamp).entries, entry ∈ t.entries := by
    intro entry hentry
    rcases hlmactableRenew_cases t timestamp with hr | hr
    · rwa [hr] at hentry
    · rw [hr] at hentry
      cases hentry
  rcases hlmactableAdd_cases maxHlmac t addr timestamp with hadd | ⟨-, -, hadd⟩
  · rw [hadd] at h
    exact .inl (hrenew entry h)
  · rw [hadd] at h ⊢
    rcases List.mem_append.1 h with h | h
    · exact .inl (hrenew entry h)
    · exact .inr ⟨rfl, List.mem_singleton.1 h⟩

/-! ## The loop test -/

theorem longestMatchhedPrefix_of_prefix {t : HlmacTable} {p : List UInt8} (hp : p ≠ [])
    (hmem : ∃ entry ∈ t.entries, entry.address = HlmacAddr.ofIds p) :
    ∀ (turns : ℕ) (q : List UInt8), p <+: q → q.length ≤ 255 → q.length ≤ turns →
      hlmacIsUnspecifiedAddr (longestMatchhedPrefix t turns (HlmacAddr.ofIds q)) = false
  | 0, q, hpq, _, hturns => by
      have hlen := hpq.length_le
      have hpos := List.length_pos_iff.2 hp
      omega
  | turns + 1, q, hpq, hq, hturns => by
      have hqpos : 0 < q.length := by
        have hlen := hpq.length_le
        have hpos := List.length_pos_iff.2 hp
        omega
      have hlen : 0 < hlmacGetLen (HlmacAddr.ofIds q) := by
        rw [UInt8.lt_iff_toNat_lt, hlmacGetLen, HlmacAddr.toNat_ofIds_len hq]
        simpa using hqpos
      rw [longestMatchhedPrefix, if_pos hlen]
      split
      · exact hlmacIsUnspecifiedAddr_ofIds q
      · rename_i hmiss
        -- `p` itself is not `q`, or the search would have stopped here
        have hne : p ≠ q := by
          rintro rfl
          obtain ⟨entry, hentry, haddr⟩ := hmem
          exact hmiss (List.any_eq_true.2 ⟨entry, hentry, by simp [haddr]⟩)
        have hlt : p.length < q.length :=
          lt_of_le_of_ne hpq.length_le fun h => hne (hpq.eq_of_length h)
        have hpos := List.length_pos_iff.2 hp
        rw [hlmacRemoveLastId_ofIds hq (by omega)]
        refine longestMatchhedPrefix_of_prefix hp hmem turns q.dropLast ?_ ?_ ?_
        · rw [List.dropLast_eq_take]
          exact List.prefix_take_iff.2 ⟨hpq, by omega⟩
        · simp
          omega
        · simp
          omega

/-- The loop test answers yes whenever the table holds a non-empty proper
prefix of the candidate. -/
theorem hlmactableHasLoop_of_prefix {t : HlmacTable} {p q : List UInt8} (hp : p ≠ [])
    (hpq : p <+: q) (hne : p ≠ q) (hq : q.length ≤ 255)
    (hmem : ∃ entry ∈ t.entries, entry.address = HlmacAddr.ofIds p) :
    hlmactableHasLoop t (HlmacAddr.ofIds q) = true := by
  have hlt : p.length < q.length :=
    lt_of_le_of_ne hpq.length_le fun h => hne (hpq.eq_of_length h)
  have hpos := List.length_pos_iff.2 hp
  have hcopy : (⟨some (HlmacAddr.ofIds q).ids, (HlmacAddr.ofIds q).len⟩ : HlmacAddr) =
      HlmacAddr.ofIds q := by
    rw [HlmacAddr.ids_ofIds hq]
    rfl
  rw [hlmactableHasLoop, hlmactableGetLongestMatchhedPrefix, hcopy,
    hlmacRemoveLastId_ofIds hq (by omega), HlmacAddr.toNat_ofIds_len hq]
  have hsearch := longestMatchhedPrefix_of_prefix hp hmem q.length q.dropLast
    (by
      rw [List.dropLast_eq_take]
      exact List.prefix_take_iff.2 ⟨hpq, by omega⟩)
    (by simp; omega) (by simp)
  simp [hsearch]

/-- Removing an id leaves the unspecified address or one id less. -/
theorem hlmacRemoveLastId_cases {a : HlmacAddr} (hne : a.len ≠ 0) :
    hlmacRemoveLastId a = unspecifiedHlmacAddress ∨
      (hlmacRemoveLastId a).len ≠ 0 ∧ (hlmacRemoveLastId a).len.toNat < a.len.toNat := by
  rw [hlmacRemoveLastId, if_neg hne]
  split
  · exact .inl rfl
  · rename_i hne1
    have h0 : a.len.toNat ≠ 0 := fun h => hne (UInt8.toNat_inj.1 h)
    have h1 : a.len.toNat ≠ 1 := fun h => hne1 (UInt8.toNat_inj.1 h)
    have hsub : (a.len - 1).toNat = a.len.toNat - 1 :=
      UInt8.toNat_sub_of_le _ _ (UInt8.le_iff_toNat_le.2 (Nat.one_le_iff_ne_zero.2 h0))
    refine .inr ⟨fun hzero => ?_, ?_⟩
    · simp only at hzero
      rw [hzero, UInt8.toNat_zero] at hsub
      omega
    · simp only [hsub]
      omega

/-- On an empty table the search removes all ids. -/
theorem longestMatchhedPrefix_nil {t : HlmacTable} (ht : t.entries = []) :
    ∀ (turns : ℕ) (a : HlmacAddr), a.len ≠ 0 → a.len.toNat ≤ turns →
      longestMatchhedPrefix t turns a = unspecifiedHlmacAddress
  | 0, a, hne, hturns => absurd (UInt8.toNat_inj.1 (Nat.le_zero.1 hturns)) hne
  | turns + 1, a, hne, hturns => by
      rw [longestMatchhedPrefix, hlmacGetLen, if_pos (UInt8.pos_iff_ne_zero.2 hne), ht, List.any_nil]
      simp only [Bool.false_eq_true, if_false]
      rcases hlmacRemoveLastId_cases hne with hlast | ⟨hne', hlt⟩
      · rw [hlast]
        cases turns <;> rfl
      · exact longestMatchhedPrefix_nil ht turns _ hne' (by omega)

/-- On an empty table only an address without ids loops. -/
theorem hlmactableHasLoop_nil {t : HlmacTable} (ht : t.entries = []) (a : HlmacAddr) :
    hlmactableHasLoop t a = (a.len == 0) := by
  obtain ⟨address, len⟩ := a
  by_cases h0 : len = 0
  · subst h0
    rfl
  · have hsearch : hlmactableGetLongestMatchhedPrefix t ⟨address, len⟩ =
        unspecifiedHlmacAddress := by
      rw [hlmactableGetLongestMatchhedPrefix]
      rcases hlmacRemoveLastId_cases
        (a := ⟨some (HlmacAddr.ids ⟨address, len⟩), len⟩) h0 with hlast | ⟨hne, hlt⟩
      · rw [hlast]
        cases len.toNat <;> rfl
      · exact longestMatchhedPrefix_nil ht _ _ hne hlt.le
    rw [hlmactableHasLoop, hsearch, beq_eq_false_iff_ne.2 h0]
    rfl

end Den2ne
