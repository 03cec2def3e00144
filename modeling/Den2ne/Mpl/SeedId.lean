import Den2ne.Bytes.LittleEndian
import Den2ne.Mpl.State
import Mathlib.Tactic.FinCases

/-!
# Seed ids between the network and the host

`seed_id_net_to_host` reverses a seed id of 2, 8 or 16 bytes into the 16 bytes of a
`seed_id_t` and clears the rest, so that `seed_id_cmp` can compare ids of any size by all
16 bytes. With a 16-bit id the last byte keeps what the destination held before; `accept`
and `icmp_in` convert into a static variable, where that is a byte of an earlier message.
-/

namespace Den2ne.Mpl

/-- The number of bytes of a seed id. -/
def seedIdSize (s : Fin 4) : ℕ :=
  if s = 1 then 2 else if s = 2 then 8 else 16

/-- The bytes of a seed id in network order. -/
def seedBytes (ptr : ℕ → UInt8) (s : Fin 4) : List UInt8 :=
  (List.range (seedIdSize s)).map ptr

/-- The number that a seed id in network order stands for. -/
def seedNumber (ptr : ℕ → UInt8) (s : Fin 4) : ℕ := Bytes.toNat (seedBytes ptr s).reverse

/-- The id that the bytes alone determine. -/
def canonicalId (ptr : ℕ → UInt8) (s : Fin 4) (i : Fin 16) : UInt8 :=
  if i < seedIdSize s then ptr (seedIdSize s - 1 - i) else 0

/-- The bytes of a canonical id are those of its seed id, lowest first, filled up with
zeros. -/
theorem ofFn_canonicalId (ptr : ℕ → UInt8) (s : Fin 4) :
    List.ofFn (canonicalId ptr s) =
      (seedBytes ptr s).reverse ++ List.replicate (16 - seedIdSize s) 0 := by
  fin_cases s <;> rfl

/-- Canonical ids of any two sizes are the same bytes exactly when they are the same
number. -/
theorem canonicalId_inj (ptr ptr' : ℕ → UInt8) (s s' : Fin 4) :
    canonicalId ptr s = canonicalId ptr' s' ↔ seedNumber ptr s = seedNumber ptr' s' := by
  rw [← List.ofFn_injective.eq_iff, ← Bytes.toNat_inj (by rw [List.length_ofFn, List.length_ofFn]),
    ofFn_canonicalId, ofFn_canonicalId, Bytes.toNat_append_replicate_zero,
    Bytes.toNat_append_replicate_zero]
  rfl

/-- Only the last byte of a 16-bit id is not its own. -/
theorem seedIdNetToHost_id (dst : SeedId) (ptr : ℕ → UInt8) (s : Fin 4) :
    (seedIdNetToHost dst ptr s).id =
      if s = 1 then Function.update (canonicalId ptr 1) 15 (dst.id 15)
      else canonicalId ptr s := by
  funext i
  fin_cases s <;> fin_cases i <;> rfl

theorem seedIdNetToHost_canonical_iff (dst : SeedId) (ptr : ℕ → UInt8) (s : Fin 4) :
    (seedIdNetToHost dst ptr s).id = canonicalId ptr s ↔ (s = 1 → dst.id 15 = 0) := by
  rw [seedIdNetToHost_id]
  by_cases hs : s = 1
  · subst hs
    rw [if_pos rfl, Function.update_eq_self_iff]
    exact ⟨fun h _ => h, fun h => h rfl⟩
  · rw [if_neg hs]
    exact ⟨fun _ h => absurd h hs, fun _ => rfl⟩

/-- The way back reads only the bytes of the id. -/
theorem seedIdHostToNet_netToHost (dst : SeedId) (ptr : ℕ → UInt8) (s : Fin 4) :
    seedIdHostToNet (seedIdNetToHost dst ptr s) = seedBytes ptr s := by
  fin_cases s <;> rfl

theorem seedIdCmp_iff (a b : SeedId) : seedIdCmp a b = true ↔ a.id = b.id :=
  decide_eq_true_iff

/-- The conversion of two seed ids is canonical, `seed_id_cmp` tells their numbers apart
and `seed_id_host_to_net` gives both back, exactly when no 16-bit id is converted over an
id whose last byte is set. -/
theorem seedId_canonical_iff (s s' : Fin 4) (dst dst' : SeedId) (ptr ptr' : ℕ → UInt8) :
    ((seedIdNetToHost dst ptr s).id = canonicalId ptr s ∧
      (seedIdNetToHost dst' ptr' s').id = canonicalId ptr' s' ∧
      (seedIdCmp (seedIdNetToHost dst ptr s) (seedIdNetToHost dst' ptr' s') = true ↔
        seedNumber ptr s = seedNumber ptr' s') ∧
      seedIdHostToNet (seedIdNetToHost dst ptr s) = seedBytes ptr s ∧
      seedIdHostToNet (seedIdNetToHost dst' ptr' s') = seedBytes ptr' s') ↔
    (s = 1 → dst.id 15 = 0) ∧ (s' = 1 → dst'.id 15 = 0) := by
  rw [← seedIdNetToHost_canonical_iff dst ptr, ← seedIdNetToHost_canonical_iff dst' ptr']
  constructor
  · rintro ⟨h, h', -⟩
    exact ⟨h, h'⟩
  · rintro ⟨h, h'⟩
    refine ⟨h, h', ?_, seedIdHostToNet_netToHost dst ptr s,
      seedIdHostToNet_netToHost dst' ptr' s'⟩
    rw [seedIdCmp_iff, h, h']
    exact canonicalId_inj ptr ptr' s s'

/-- A message with a 128-bit id before the second message leaves its first byte in the
static id, and the same 16-bit id is no longer equal to itself. -/
theorem not_seedId_canonical_sixteen :
    let clear : SeedId := ⟨0, fun _ => 0⟩
    let ptr : ℕ → UInt8 := fun _ => 1
    let static := seedIdNetToHost clear ptr 3
    (seedIdNetToHost static ptr 1).id ≠ canonicalId ptr 1 ∧
      seedIdCmp (seedIdNetToHost clear ptr 1) (seedIdNetToHost static ptr 1) = false := by
  decide

end Den2ne.Mpl
