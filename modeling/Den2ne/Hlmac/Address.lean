import Mathlib.Data.Int.Basic
import Mathlib.Data.List.Basic

/-!
# HLMAC addresses

`hlmacaddr.c`. A hierarchical address is a buffer of ids and an 8-bit length;
`address = none` is the NULL pointer, so the unspecified address is
`⟨none, 0⟩`. The buffer is held by value: who allocates and frees it is not
part of this layer. `HlmacAddr.ids` is the id sequence the two fields stand
for, and `HlmacAddr.ofIds` the address of a sequence.
-/

namespace Den2ne

/-- `hlmacaddr_t`: the buffer the pointer refers to and the 8-bit length. -/
structure HlmacAddr where
  address : Option (List UInt8)
  len : UInt8
deriving DecidableEq, Repr

/-- `UNSPECIFIED_HLMAC_ADDRESS`. -/
def unspecifiedHlmacAddress : HlmacAddr := ⟨none, 0⟩

namespace HlmacAddr

/-- The ids that the address spells: the first `len` cells of the buffer. -/
def ids (a : HlmacAddr) : List UInt8 := (a.address.getD []).take a.len.toNat

/-- The address whose buffer holds exactly `l`. -/
def ofIds (l : List UInt8) : HlmacAddr := ⟨some l, UInt8.ofNat l.length⟩

theorem toNat_ofIds_len {l : List UInt8} (h : l.length ≤ 255) :
    (ofIds l).len.toNat = l.length := by
  simp only [ofIds, UInt8.toNat_ofNat']
  omega

@[simp] theorem ids_ofIds {l : List UInt8} (h : l.length ≤ 255) : (ofIds l).ids = l := by
  rw [ids, toNat_ofIds_len h]
  simp [ofIds]

theorem ofIds_inj {l l' : List UInt8} : ofIds l = ofIds l' ↔ l = l' := by
  constructor
  · intro h
    exact Option.some.inj (congrArg HlmacAddr.address h)
  · rintro rfl
    rfl

/-- An address with one id extends none. -/
theorem eq_nil_of_ofIds_append {l : List UInt8} {id i : UInt8}
    (h : ofIds (l ++ [id]) = ofIds [i]) : l = [] := by
  have hlen := congrArg List.length (ofIds_inj.1 h)
  rw [List.length_append, List.length_singleton, List.length_singleton] at hlen
  exact List.length_eq_zero_iff.1 (Nat.succ.inj hlen)

/-- The buffer holds the ids that the length announces. -/
def Backed (a : HlmacAddr) : Prop := a.len.toNat ≤ (a.address.getD []).length

instance (a : HlmacAddr) : Decidable a.Backed := inferInstanceAs (Decidable (_ ≤ _))

theorem backed_iff {a : HlmacAddr} : a.Backed ↔ a.ids.length = a.len.toNat := by
  rw [Backed, ids, List.length_take]
  omega

theorem backed_ofIds {l : List UInt8} (h : l.length ≤ 255) : (ofIds l).Backed := by
  rw [Backed, toNat_ofIds_len h]
  exact Nat.le_refl _

end HlmacAddr

/-- An address is unspecified when it has no id and no buffer. -/
def hlmacIsUnspecifiedAddr (a : HlmacAddr) : Bool := a.len == 0 && a.address.isNone

def hlmacGetLen (a : HlmacAddr) : UInt8 := a.len

/-- The one-id address of the root. -/
def hlmacCreateRootAddr (rootId : UInt8) : HlmacAddr := ⟨some [rootId], 1⟩

/-- Append an id. The length is an 8-bit counter and wraps after 255 ids. -/
def hlmacAddNewId (a : HlmacAddr) (newId : UInt8) : HlmacAddr :=
  ⟨some (a.ids ++ [newId]), a.len + 1⟩

/-- Drop the last id; dropping the only one leaves the unspecified address. -/
def hlmacRemoveLastId (a : HlmacAddr) : HlmacAddr :=
  if a.len = 0 then a
  else if a.len = 1 then ⟨none, 0⟩
  else ⟨some a.ids.dropLast, a.len - 1⟩

/-- Compare two addresses id by id, and let missing ids count as `0`. The
result is `+1` when the second is greater, `-1` when the first is, `0` when
they are equal, and `-2` is the error result. -/
def hlmacCmp (a b : HlmacAddr) : ℤ :=
  let minLen := min a.len.toNat b.len.toNat
  match ((a.ids.take minLen).zip (b.ids.take minLen)).find? fun p => p.1 ≠ p.2 with
  | some p => if p.1 < p.2 then 1 else -1
  | none =>
      if a.len = b.len then 0
      else if a.len < b.len then if (b.ids.drop minLen).any (0 < ·) then 1 else 0
      else if b.len < a.len then if (a.ids.drop minLen).any (0 < ·) then -1 else 0
      else -2

/-- Below the wrap of the length, adding an id appends to the id sequence. -/
theorem hlmacAddNewId_ofIds {l : List UInt8} (h : l.length < 255) (newId : UInt8) :
    hlmacAddNewId (HlmacAddr.ofIds l) newId = HlmacAddr.ofIds (l ++ [newId]) := by
  rw [hlmacAddNewId, HlmacAddr.ids_ofIds (by omega)]
  simp [HlmacAddr.ofIds]

theorem hlmacIsUnspecifiedAddr_ofIds (l : List UInt8) :
    hlmacIsUnspecifiedAddr (HlmacAddr.ofIds l) = false := by
  simp [hlmacIsUnspecifiedAddr, HlmacAddr.ofIds]

theorem hlmacIsUnspecifiedAddr_iff {a : HlmacAddr} :
    hlmacIsUnspecifiedAddr a = true ↔ a = unspecifiedHlmacAddress := by
  obtain ⟨address, len⟩ := a
  cases address <;> simp [hlmacIsUnspecifiedAddr, unspecifiedHlmacAddress]

/-- Adding an id makes an address specified, whatever it was before. -/
theorem hlmacIsUnspecifiedAddr_hlmacAddNewId (a : HlmacAddr) (newId : UInt8) :
    hlmacIsUnspecifiedAddr (hlmacAddNewId a newId) = false := by
  simp [hlmacIsUnspecifiedAddr, hlmacAddNewId]

theorem hlmacRemoveLastId_ofIds {l : List UInt8} (h : l.length ≤ 255) (h₂ : 2 ≤ l.length) :
    hlmacRemoveLastId (HlmacAddr.ofIds l) = HlmacAddr.ofIds l.dropLast := by
  have hlen := HlmacAddr.toNat_ofIds_len h
  have h0 : (HlmacAddr.ofIds l).len ≠ 0 := by
    intro h0
    rw [h0] at hlen
    simp at hlen
    omega
  have h1 : (HlmacAddr.ofIds l).len ≠ 1 := by
    intro h1
    rw [h1] at hlen
    simp at hlen
    omega
  rw [hlmacRemoveLastId, if_neg h0, if_neg h1, HlmacAddr.ids_ofIds h]
  simp only [HlmacAddr.ofIds, HlmacAddr.mk.injEq, List.length_dropLast, true_and]
  rw [UInt8.ofNat_sub (by omega)]
  rfl

@[simp] theorem hlmacCmp_self (a : HlmacAddr) : hlmacCmp a a = 0 := by
  have hzip : ∀ l : List UInt8, (l.zip l).find? (fun p => p.1 ≠ p.2) = none := by
    intro l
    induction l with
    | nil => rfl
    | cons i l ih => simpa using ih
  simp only [hlmacCmp]
  rw [hzip]
  simp

end Den2ne
