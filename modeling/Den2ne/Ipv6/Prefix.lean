import Den2ne.Ipv6.Address

/-!
# Prefixes of IPv6 addresses

Two addresses agree in a prefix of `l` bits. `uip_ipaddr_prefixcmp` compares only the whole
bytes of the prefix, so that it tells agreement when `l` is a multiple of eight.
-/

namespace Den2ne.Ipaddr

/-- The bits of a byte, the most significant one first. -/
def byteBits (b : UInt8) : List Bool := (List.range 8).map b.toBitVec.getMsbD

/-- The bits of an address, in the order of the network. -/
def bits (a : Ipaddr) : List Bool := a.u8.flatMap byteBits

/-- The first `l` bits are the same. -/
def Agree (a b : Ipaddr) (l : ℕ) : Prop := a.bits.take l = b.bits.take l

instance (a b : Ipaddr) (l : ℕ) : Decidable (a.Agree b l) :=
  inferInstanceAs (Decidable (a.bits.take l = b.bits.take l))

@[simp] theorem length_byteBits (b : UInt8) : (byteBits b).length = 8 := by
  rw [byteBits, List.length_map, List.length_range]

theorem byteBits_injective : Function.Injective byteBits := by
  intro b c h
  rw [byteBits, byteBits, List.map_inj_left] at h
  refine UInt8.toBitVec_inj.1 (BitVec.eq_of_getMsbD_eq fun i hi => ?_)
  exact h i (List.mem_range.2 hi)

theorem flatMap_byteBits_injective {l m : List UInt8}
    (h : l.flatMap byteBits = m.flatMap byteBits) : l = m := by
  induction l generalizing m with
  | nil =>
      cases m with
      | nil => rfl
      | cons c m =>
          have hlen := congrArg List.length h
          rw [List.flatMap_nil, List.flatMap_cons, List.length_append, length_byteBits,
            List.length_nil] at hlen
          omega
  | cons b l ih =>
      cases m with
      | nil =>
          have hlen := congrArg List.length h
          rw [List.flatMap_nil, List.flatMap_cons, List.length_append, length_byteBits,
            List.length_nil] at hlen
          omega
      | cons c m =>
          rw [List.flatMap_cons, List.flatMap_cons] at h
          obtain ⟨hbc, hrest⟩ := List.append_inj h (by simp)
          rw [byteBits_injective hbc, ih hrest]

theorem take_flatMap_byteBits (n : ℕ) (l : List UInt8) :
    (l.flatMap byteBits).take (8 * n) = (l.take n).flatMap byteBits := by
  induction n generalizing l with
  | zero => rfl
  | succ n ih =>
      cases l with
      | nil => simp
      | cons b l =>
          rw [List.flatMap_cons, List.take_succ_cons, List.flatMap_cons, ← ih,
            show 8 * (n + 1) = (byteBits b).length + 8 * n by rw [length_byteBits]; omega,
            List.take_length_add_append]

variable {a b c : Ipaddr} {l m : ℕ}

/-- Whole bytes are compared. -/
theorem prefixcmp_iff : a.prefixcmp b l = true ↔ a.Agree b (8 * (l / 8)) := by
  rw [prefixcmp, decide_eq_true_eq, Agree, bits, bits, take_flatMap_byteBits,
    take_flatMap_byteBits]
  exact ⟨fun h => by rw [h], fun h => flatMap_byteBits_injective h⟩

theorem prefixcmp_comm : a.prefixcmp b l = true ↔ b.prefixcmp a l = true := by
  rw [prefixcmp_iff, prefixcmp_iff]
  exact eq_comm

theorem prefixcmp_trans (h : a.prefixcmp b l = true) (h' : b.prefixcmp c l = true) :
    a.prefixcmp c l = true :=
  prefixcmp_iff.2 (Eq.trans (prefixcmp_iff.1 h) (prefixcmp_iff.1 h'))

theorem Agree.symm (h : a.Agree b l) : b.Agree a l := Eq.symm h

theorem Agree.trans (h : a.Agree b l) (h' : b.Agree c l) : a.Agree c l := Eq.trans h h'

theorem Agree.mono (h : a.Agree b l) (hm : m ≤ l) : a.Agree b m := by
  have hmin : min m l = m := Nat.min_eq_left hm
  have htake := congrArg (List.take m) h
  rwa [List.take_take, List.take_take, hmin] at htake

theorem Agree.prefixcmp (h : a.Agree b l) : a.prefixcmp b l = true :=
  prefixcmp_iff.2 (h.mono (Nat.mul_div_le l 8))

end Den2ne.Ipaddr
