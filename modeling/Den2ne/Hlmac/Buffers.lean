import Den2ne.Heap.Cells
import Den2ne.Hlmac.Table
import Mathlib.Data.Option.Basic

/-!
# Addresses as pointers

`hlmacaddr.c` and `hlmac-table.c` once more, now with the buffers of ids as
cells of a heap that the functions allocate and free. An entry of the table
shares the buffer of the address that it was made from. `stale` supplies what a
read finds behind a pointer to a buffer that is not allocated any more.

Each function works on its own cells, and where the buffers that it reads are
as they should be, it computes what the function on address values computes.
-/

namespace Den2ne

open Cells

/-- The heap of the id buffers. -/
abbrev Buffers := Heap (List UInt8)

namespace Owned

/-- `hlmacaddr_t`, the pointer as a pointer. -/
structure HlmacAddr where
  address : Option ℕ
  len : UInt8
deriving DecidableEq, Repr

/-- The value of an address: its buffer as it is in the heap. -/
def HlmacAddr.deref (stale : ℕ → List UInt8) (h : Buffers) (a : HlmacAddr) : Den2ne.HlmacAddr :=
  ⟨a.address.map fun i => (h.read i).getD (stale i), a.len⟩

def hlmacIsUnspecifiedAddr (a : HlmacAddr) : Bool := a.len == 0 && a.address.isNone

def hlmacCreateRootAddr (rootId : UInt8) (h : Buffers) : HlmacAddr × Buffers :=
  let (i, h) := h.alloc [rootId]
  (⟨some i, 1⟩, h)

/-- A new buffer takes the ids and the new one; the old buffer is freed. -/
def hlmacAddNewId (stale : ℕ → List UInt8) (a : HlmacAddr) (newId : UInt8) (h : Buffers) :
    HlmacAddr × Buffers :=
  let (i, h') := h.alloc ((a.deref stale h).ids ++ [newId])
  (⟨some i, a.len + 1⟩, h'.free a.address)

def hlmacRemoveLastId (stale : ℕ → List UInt8) (a : HlmacAddr) (h : Buffers) :
    HlmacAddr × Buffers :=
  if a.len = 0 then (a, h)
  else if a.len = 1 then (⟨none, 0⟩, h.free a.address)
  else
    let (i, h') := h.alloc (a.deref stale h).ids.dropLast
    (⟨some i, a.len - 1⟩, h'.free a.address)

/-- `hlmac_table_entry_t`. `passed` is history: what the buffer held when the
address was passed to `hlmactable_add`. -/
structure HlmacTableEntry where
  address : HlmacAddr
  timestamp : ℕ
  passed : List UInt8
deriving DecidableEq, Repr

/-- `hlmac_table_entry_list` and `number_of_hlmac_addresses`. -/
structure HlmacTable where
  entries : List HlmacTableEntry
  numberOfHlmacAddresses : ℕ
deriving DecidableEq, Repr

/-- Only the entries are freed, not the buffers of their addresses. -/
def hlmactableClean (_ : HlmacTable) : HlmacTable := ⟨[], 0⟩

/-- A newer timestamp than the first entry's empties the table first. -/
def hlmactableRenew (t : HlmacTable) (timestamp : ℕ) : HlmacTable :=
  if 0 < t.numberOfHlmacAddresses then
    match t.entries with
    | [] => t
    | entry :: _ => if entry.timestamp < timestamp then hlmactableClean t else t
  else t

/-- `hlmactable_add`: the entry gets the pointer, and no buffer of its own. -/
def hlmactableAdd (maxHlmac : ℤ) (t : HlmacTable) (addr : HlmacAddr) (timestamp : ℕ)
    (h : Buffers) : Bool × HlmacTable :=
  let t := hlmactableRenew t timestamp
  if 255 ≤ t.numberOfHlmacAddresses then (false, t)
  else if maxHlmac = -1 ∨ (maxHlmac ≠ -1 ∧ (t.numberOfHlmacAddresses : ℤ) < maxHlmac) then
    (true, ⟨t.entries ++ [⟨addr, timestamp, (addr.address.bind h.read).getD []⟩],
      t.numberOfHlmacAddresses + 1⟩)
  else (false, t)

/-- The `while` loop of `hlmactable_get_longest_matchhed_prefix`. What a stale
buffer holds may change from turn to turn. -/
def longestMatchhedPrefix (stale : ℕ → ℕ → List UInt8) (t : HlmacTable) :
    ℕ → HlmacAddr → Buffers → HlmacAddr × Buffers
  | 0, addr, h => (addr, h)
  | turns + 1, addr, h =>
      if 0 < addr.len then
        if t.entries.any fun entry =>
            hlmacCmp (entry.address.deref (stale turns) h) (addr.deref (stale turns) h) == 0 then
          (addr, h)
        else
          let (addr, h) := hlmacRemoveLastId (stale turns) addr h
          longestMatchhedPrefix stale t turns addr h
      else (addr, h)

def hlmactableGetLongestMatchhedPrefix (stale : ℕ → ℕ → List UInt8) (t : HlmacTable)
    (address : HlmacAddr) (h : Buffers) : HlmacAddr × Buffers :=
  let turns := address.len.toNat
  let (i, h) := h.alloc (address.deref (stale turns) h).ids
  let (addr, h) := hlmacRemoveLastId (stale turns) ⟨some i, address.len⟩ h
  longestMatchhedPrefix stale t turns addr h

/-- `hlmactable_has_loop` frees the prefix that it was given. -/
def hlmactableHasLoop (stale : ℕ → ℕ → List UInt8) (t : HlmacTable) (addr : HlmacAddr)
    (h : Buffers) : Bool × Buffers :=
  let (longestPrefix, h) := hlmactableGetLongestMatchhedPrefix stale t addr h
  (!hlmacIsUnspecifiedAddr longestPrefix, h.free longestPrefix.address)

/-! ## Who owns what -/

variable {base h : Buffers} {a : HlmacAddr} {stale : ℕ → List UInt8}

theorem owns_hlmacCreateRootAddr (hs : h.Sound) (rootId : UInt8) :
    h.Owns (hlmacCreateRootAddr rootId h).1.address (hlmacCreateRootAddr rootId h).2 :=
  hs.owns.alloc [rootId]

theorem owns_hlmacAddNewId (ho : base.Owns a.address h) (newId : UInt8) :
    base.Owns (hlmacAddNewId stale a newId h).1.address (hlmacAddNewId stale a newId h).2 :=
  ho.exchange _

variable (stale) in
theorem owns_hlmacRemoveLastId (ho : base.Owns a.address h) :
    base.Owns (hlmacRemoveLastId stale a h).1.address (hlmacRemoveLastId stale a h).2 := by
  rw [hlmacRemoveLastId]
  split
  · exact ho
  · split
    · exact ho.free
    · exact ho.exchange _

theorem owns_longestMatchhedPrefix (stale : ℕ → ℕ → List UInt8) (t : HlmacTable) (turns : ℕ)
    (ho : base.Owns a.address h) :
    base.Owns (longestMatchhedPrefix stale t turns a h).1.address
      (longestMatchhedPrefix stale t turns a h).2 := by
  induction turns generalizing a h with
  | zero => exact ho
  | succ turns ih =>
      rw [longestMatchhedPrefix]
      split
      · split
        · exact ho
        · exact ih (owns_hlmacRemoveLastId _ ho)
      · exact ho

/-- The loop test leaves nothing allocated, and frees what it has allocated. -/
theorem owns_hlmactableHasLoop (stale : ℕ → ℕ → List UInt8) (t : HlmacTable) (addr : HlmacAddr)
    (hs : h.Sound) : h.Owns none (hlmactableHasLoop stale t addr h).2 :=
  (owns_longestMatchhedPrefix stale t _ (owns_hlmacRemoveLastId _
    (a := ⟨some _, addr.len⟩) (hs.owns.alloc _))).free

/-! ## What is computed -/

/-- Behind a pointer that is owned nothing is stale. -/
theorem deref_of_owns (ho : base.Owns a.address h) (stale stale' : ℕ → List UInt8) :
    a.deref stale h = a.deref stale' h := by
  rw [HlmacAddr.deref, HlmacAddr.deref]
  refine congrArg (Den2ne.HlmacAddr.mk · a.len) ?_
  cases hi : a.address with
  | none => rfl
  | some i =>
      obtain ⟨ids, hids⟩ := Option.isSome_iff_exists.1 (ho.live i hi).2
      simp [hids]

/-- A buffer that was there before is read as it was. -/
theorem deref_of_extends (hext : base.Extends h) (ha : ∀ i, a.address = some i →
    i < base.cells.length) : a.deref stale h = a.deref stale base := by
  rw [HlmacAddr.deref, HlmacAddr.deref]
  refine congrArg (Den2ne.HlmacAddr.mk · a.len) ?_
  cases hi : a.address with
  | none => rfl
  | some i => simp [hext.read_eq i (ha i hi)]

/-- The value of an address that is owned is what its buffer holds. -/
theorem read_of_deref (ho : base.Owns a.address h) {ids : List UInt8} {len : UInt8}
    (hvalue : a.deref stale h = ⟨some ids, len⟩) : a.address.bind h.read = some ids := by
  obtain ⟨hids, -⟩ := Den2ne.HlmacAddr.mk.injEq .. ▸ hvalue
  cases hi : a.address with
  | none =>
      rw [hi] at hids
      cases hids
  | some i =>
      obtain ⟨buffer, hbuffer⟩ := Option.isSome_iff_exists.1 (ho.live i hi).2
      rw [hi, Option.map_some, hbuffer, Option.getD_some] at hids
      rw [Option.bind_some, hbuffer, hids]

variable (stale) in
theorem hlmacIsUnspecifiedAddr_deref :
    Den2ne.hlmacIsUnspecifiedAddr (a.deref stale h) = hlmacIsUnspecifiedAddr a := by
  rw [Den2ne.hlmacIsUnspecifiedAddr, hlmacIsUnspecifiedAddr, HlmacAddr.deref, Option.isNone_map]

theorem deref_alloc (ids : List UInt8) (len : UInt8) (h : Buffers) :
    (⟨some (h.alloc ids).1, len⟩ : HlmacAddr).deref stale (h.alloc ids).2 = ⟨some ids, len⟩ := by
  simp [HlmacAddr.deref]

theorem deref_exchange (ho : base.Owns a.address h) (ids : List UInt8) (len : UInt8) :
    (⟨some (h.alloc ids).1, len⟩ : HlmacAddr).deref stale ((h.alloc ids).2.free a.address) =
      ⟨some ids, len⟩ := by
  simp [HlmacAddr.deref, Heap.read_free_of_ne (ho.ne_alloc ids)]

theorem deref_hlmacAddNewId (ho : base.Owns a.address h) (newId : UInt8) :
    (hlmacAddNewId stale a newId h).1.deref stale (hlmacAddNewId stale a newId h).2 =
      Den2ne.hlmacAddNewId (a.deref stale h) newId :=
  deref_exchange ho _ _

variable (stale) in
theorem deref_hlmacRemoveLastId (ho : base.Owns a.address h) :
    (hlmacRemoveLastId stale a h).1.deref stale (hlmacRemoveLastId stale a h).2 =
      Den2ne.hlmacRemoveLastId (a.deref stale h) := by
  have hlen : (a.deref stale h).len = a.len := rfl
  rw [hlmacRemoveLastId, Den2ne.hlmacRemoveLastId, hlen]
  split
  · rfl
  · split
    · rfl
    · exact deref_exchange ho _ _

/-- The value that an entry had when it was stored. -/
def HlmacTableEntry.value (entry : HlmacTableEntry) : Den2ne.HlmacTableEntry :=
  ⟨⟨some entry.passed, entry.address.len⟩, entry.timestamp⟩

/-- The table of the values that were stored. -/
def HlmacTable.value (t : HlmacTable) : Den2ne.HlmacTable :=
  ⟨t.entries.map (·.value), t.numberOfHlmacAddresses⟩

/-- Every entry points to a cell of the heap, dead or alive. -/
def HlmacTable.Placed (t : HlmacTable) (h : Buffers) : Prop :=
  ∀ entry ∈ t.entries, ∀ i, entry.address.address = some i → i < h.cells.length

/-- A copy of an address with only its first `k` ids. -/
def firstIds (addr : Den2ne.HlmacAddr) (k : ℕ) : Den2ne.HlmacAddr :=
  Den2ne.hlmacRemoveLastId^[addr.len.toNat - k] ⟨some addr.ids, addr.len⟩

/-- The loop test, which compares the first `k` ids of the address in turn `k`,
finds them in the entries exactly if they were stored. -/
def HlmacTable.ReadsAs (t : HlmacTable) (h : Buffers) (stale : ℕ → ℕ → List UInt8)
    (addr : Den2ne.HlmacAddr) : Prop :=
  ∀ k < addr.len.toNat, 0 < k →
    ((∃ entry ∈ t.entries, hlmacCmp (entry.address.deref (stale k) h) (firstIds addr k) = 0) ↔
      ∃ entry ∈ t.entries, hlmacCmp entry.value.address (firstIds addr k) = 0)

instance (t : HlmacTable) (h : Buffers) (stale : ℕ → ℕ → List UInt8) (addr : Den2ne.HlmacAddr) :
    Decidable (t.ReadsAs h stale addr) := by
  unfold HlmacTable.ReadsAs
  infer_instance

/-- Every entry points to a cell of the heap, and reads as the value that was
stored. -/
structure HlmacTable.Faithful (t : HlmacTable) (h : Buffers) (stale : ℕ → ℕ → List UInt8) :
    Prop where
  placed : t.Placed h
  reads : ∀ entry ∈ t.entries, ∀ turn, entry.address.deref (stale turn) h = entry.value.address

theorem HlmacTable.Faithful.readsAs {t : HlmacTable} {stale : ℕ → ℕ → List UInt8}
    (hfaithful : t.Faithful h stale) (addr : Den2ne.HlmacAddr) : t.ReadsAs h stale addr := by
  intro k _ _
  refine exists_congr fun entry => and_congr_right fun hentry => ?_
  rw [hfaithful.reads entry hentry]

/-- What reads find does not depend on what is done to other buffers. -/
theorem HlmacTable.ReadsAs.of_extends {t : HlmacTable} {stale : ℕ → ℕ → List UInt8}
    {addr : Den2ne.HlmacAddr} (hreads : t.ReadsAs base stale addr) (hplaced : t.Placed base)
    (hext : base.Extends h) : t.ReadsAs h stale addr := by
  intro k hk hpos
  rw [← hreads k hk hpos]
  refine exists_congr fun entry => and_congr_right fun hentry => ?_
  rw [deref_of_extends hext (hplaced entry hentry)]

theorem len_hlmacRemoveLastId (addr : Den2ne.HlmacAddr) (h : addr.len ≠ 0) :
    (Den2ne.hlmacRemoveLastId addr).len.toNat + 1 = addr.len.toNat := by
  rw [Den2ne.hlmacRemoveLastId, if_neg h]
  split
  next hone =>
    rw [hone]
    rfl
  next =>
    change (addr.len - 1).toNat + 1 = addr.len.toNat
    have hpos : addr.len.toNat ≠ 0 := fun h₀ => h (UInt8.toNat_inj.1 h₀)
    have hle : (1 : UInt8) ≤ addr.len := UInt8.le_iff_toNat_le.2 (Nat.pos_of_ne_zero hpos)
    rw [UInt8.toNat_sub_of_le _ _ hle]
    exact Nat.succ_pred hpos

theorem firstIds_pred (addr : Den2ne.HlmacAddr) {k : ℕ} (hk : k < addr.len.toNat) :
    firstIds addr k = Den2ne.hlmacRemoveLastId (firstIds addr (k + 1)) := by
  have hsucc : addr.len.toNat - k = (addr.len.toNat - (k + 1)) + 1 := by omega
  rw [firstIds, firstIds, hsucc, Function.iterate_succ_apply']

theorem len_firstIds (addr : Den2ne.HlmacAddr) {j k : ℕ} (h : j + k = addr.len.toNat) :
    (firstIds addr k).len.toNat = k := by
  induction j generalizing k with
  | zero =>
      rw [firstIds, ← h, Nat.zero_add, Nat.sub_self]
      exact h.symm.trans (Nat.zero_add k)
  | succ j ih =>
      have hsucc : (firstIds addr (k + 1)).len.toNat = k + 1 := ih (by omega)
      rw [firstIds_pred addr (by omega)]
      have hne : (firstIds addr (k + 1)).len ≠ 0 := by
        intro h₀
        rw [h₀] at hsucc
        cases hsucc
      have := len_hlmacRemoveLastId _ hne
      omega

/-- The loop with `k + 1` turns left is at the first `k` ids. -/
theorem deref_longestMatchhedPrefix {t : HlmacTable} {stale : ℕ → ℕ → List UInt8}
    {addr : Den2ne.HlmacAddr} (hplaced : t.Placed base) (hreads : t.ReadsAs base stale addr)
    {k : ℕ} (hk : k < addr.len.toNat) (ho : base.Owns a.address h) (s : ℕ → List UInt8)
    (hvalue : a.deref s h = firstIds addr k) :
    (longestMatchhedPrefix stale t (k + 1) a h).1.deref s
        (longestMatchhedPrefix stale t (k + 1) a h).2 =
      Den2ne.longestMatchhedPrefix t.value (k + 1) (firstIds addr k) := by
  induction k generalizing a h with
  | zero =>
      have hlen : a.len = 0 := by
        have hlen : (firstIds addr 0).len.toNat = 0 := len_firstIds addr (Nat.add_zero _)
        rw [← hvalue] at hlen
        exact UInt8.toNat_inj.1 hlen
      rw [longestMatchhedPrefix, Den2ne.longestMatchhedPrefix, ← hvalue]
      have hget : hlmacGetLen (a.deref s h) = a.len := rfl
      rw [hget, hlen]
      rfl
  | succ k ih =>
      have hlen : hlmacGetLen (firstIds addr (k + 1)) = a.len := by
        rw [← hvalue]
        rfl
      have hany : (t.entries.any fun entry =>
          hlmacCmp (entry.address.deref (stale (k + 1)) h) (a.deref (stale (k + 1)) h) == 0) =
          t.value.entries.any fun entry =>
            hlmacCmp entry.address (firstIds addr (k + 1)) == 0 := by
        have hfinds := hreads.of_extends hplaced ho.extension (k + 1) hk (Nat.succ_pos k)
        rw [HlmacTable.value, List.any_map, Bool.eq_iff_iff, List.any_eq_true, List.any_eq_true,
          deref_of_owns ho (stale (k + 1)) s, hvalue]
        simpa using hfinds
      rw [longestMatchhedPrefix, Den2ne.longestMatchhedPrefix, hlen, ← hany]
      split
      · split
        · exact hvalue
        · have hremove := deref_hlmacRemoveLastId (stale (k + 1)) ho
          have hown := owns_hlmacRemoveLastId (stale (k + 1)) ho
          rw [deref_of_owns hown (stale (k + 1)) s, deref_of_owns ho (stale (k + 1)) s, hvalue,
            ← firstIds_pred addr (Nat.lt_of_succ_lt hk)] at hremove
          rw [← firstIds_pred addr (Nat.lt_of_succ_lt hk)]
          exact ih (Nat.lt_of_succ_lt hk) hown hremove
      · exact hvalue

/-- The loop starts with a copy without the last id. -/
theorem deref_longestMatchhedPrefix_of_copy {t : HlmacTable} {stale : ℕ → ℕ → List UInt8}
    {addr : Den2ne.HlmacAddr} (hplaced : t.Placed base) (hreads : t.ReadsAs base stale addr)
    (ho : base.Owns a.address h) (s : ℕ → List UInt8)
    (hvalue : a.deref s h = Den2ne.hlmacRemoveLastId ⟨some addr.ids, addr.len⟩) :
    (longestMatchhedPrefix stale t addr.len.toNat a h).1.deref s
        (longestMatchhedPrefix stale t addr.len.toNat a h).2 =
      Den2ne.longestMatchhedPrefix t.value addr.len.toNat
        (Den2ne.hlmacRemoveLastId ⟨some addr.ids, addr.len⟩) := by
  cases hturns : addr.len.toNat with
  | zero => exact hvalue
  | succ k =>
      have hfirst : firstIds addr k = Den2ne.hlmacRemoveLastId ⟨some addr.ids, addr.len⟩ := by
        rw [firstIds, hturns, Nat.add_sub_cancel_left]
        rfl
      rw [← hfirst] at hvalue ⊢
      exact deref_longestMatchhedPrefix hplaced hreads (by omega) ho s hvalue

/-- Where the entries read as they were stored, the loop test decides on the
values that were stored. -/
theorem fst_hlmactableHasLoop {t : HlmacTable} {stale : ℕ → ℕ → List UInt8} {addr : HlmacAddr}
    {value : Den2ne.HlmacAddr} (hs : h.Sound) (hplaced : t.Placed h)
    (hreads : t.ReadsAs h stale value) (hvalue : ∀ turn, addr.deref (stale turn) h = value) :
    (hlmactableHasLoop stale t addr h).1 = Den2ne.hlmactableHasLoop t.value value := by
  have hlen : addr.len = value.len := by
    rw [← hvalue 0]
    rfl
  have hown := hs.owns.alloc (addr.deref (stale addr.len.toNat) h).ids
  have hremove := deref_hlmacRemoveLastId (a := ⟨some _, addr.len⟩) (stale addr.len.toNat) hown
  have hremoved := owns_hlmacRemoveLastId (a := ⟨some _, addr.len⟩) (stale addr.len.toNat) hown
  rw [deref_alloc, deref_of_owns hremoved _ (stale 0), hvalue, hlen] at hremove
  rw [hvalue, hlen] at hremoved
  have hsearch := deref_longestMatchhedPrefix_of_copy hplaced hreads hremoved (stale 0) hremove
  rw [hlmactableHasLoop, Den2ne.hlmactableHasLoop, Den2ne.hlmactableGetLongestMatchhedPrefix,
    ← hsearch, hlmacIsUnspecifiedAddr_deref, hlmactableGetLongestMatchhedPrefix, hvalue, hlen]

/-! ## The table -/

theorem value_hlmactableRenew (t : HlmacTable) (timestamp : ℕ) :
    (hlmactableRenew t timestamp).value = Den2ne.hlmactableRenew t.value timestamp := by
  obtain ⟨entries, number⟩ := t
  cases entries with
  | nil => simp [hlmactableRenew, Den2ne.hlmactableRenew, HlmacTable.value]
  | cons entry rest =>
      simp only [hlmactableRenew, Den2ne.hlmactableRenew, HlmacTable.value, List.map_cons,
        HlmacTableEntry.value]
      split
      · split
        · rfl
        · rfl
      · rfl

/-- The table of pointers stores an address exactly when the table of values
does. -/
theorem value_hlmactableAdd (maxHlmac : ℤ) (t : HlmacTable) {addr : HlmacAddr} (timestamp : ℕ)
    {ids : List UInt8} (hids : addr.address.bind h.read = some ids) :
    (hlmactableAdd maxHlmac t addr timestamp h).1 =
        (Den2ne.hlmactableAdd maxHlmac t.value ⟨some ids, addr.len⟩ timestamp).1 ∧
      (hlmactableAdd maxHlmac t addr timestamp h).2.value =
        (Den2ne.hlmactableAdd maxHlmac t.value ⟨some ids, addr.len⟩ timestamp).2 := by
  have hrenew := value_hlmactableRenew t timestamp
  have hnumber : (Den2ne.hlmactableRenew t.value timestamp).numberOfHlmacAddresses =
      (hlmactableRenew t timestamp).numberOfHlmacAddresses := by
    rw [← hrenew]
    rfl
  simp only [hlmactableAdd, Den2ne.hlmactableAdd, hnumber, hids, Option.getD_some]
  split
  · exact ⟨rfl, hrenew⟩
  · split
    · refine ⟨rfl, ?_⟩
      rw [← hrenew]
      simp [HlmacTable.value, HlmacTableEntry.value]
    · exact ⟨rfl, hrenew⟩

end Owned

end Den2ne
