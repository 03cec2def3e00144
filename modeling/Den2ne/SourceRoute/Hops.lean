import Den2ne.SourceRoute.Header
import Mathlib.Tactic.Ring

/-!
# The hops of a packet

The nodes from a destination up to a child of the root are an `Ascent`. `Carries` describes a
packet whose source routing header holds the addresses that are still to be visited, shortened by
the bytes that all addresses of the path share; an update takes the first of them, whatever the
lengths are, as long as the length of the header fits a byte.
-/

namespace Den2ne.SourceRoute

open Memory

/-- The nodes of the list are each the parent of the one before, and the root is the parent of
the last one and not among them. -/
def Ascent (s : State) (root : ℕ) : List ℕ → Prop
  | [] => False
  | [l] => l ≠ root ∧ s.parent l = some root
  | l :: k :: ls => l ≠ root ∧ s.parent l = some k ∧ Ascent s root (k :: ls)

/-- `old` with a header of `h` bytes. -/
structure Consistent (old p : Packet) (h : ℕ) : Prop where
  len : p.len = old.len + h
  field : p.lenField = p.len - iphLen
  header : (p.buf (iphLen + 1)).toNat * 8 + 8 = h
  payload : load p.buf (iphLen + h) (old.len - iphLen) = load old.buf iphLen (old.len - iphLen)

/-- The updates at the destinations send the packet to the addresses of the list, and the last
one finds no segments left. -/
def Visits (stack : Stack) (old : Packet) (h : ℕ) : List Ipaddr → Packet → Prop
  | [], _ => False
  | [a], p => Consistent old p h ∧ p.destipaddr = a ∧ p.buf (iphLen + 3) = 0 ∧
      srhUpdate stack p = (true, p)
  | a :: b :: as, p => Consistent old p h ∧ p.destipaddr = a ∧ (srhUpdate stack p).1 = true ∧
      Visits stack old h (b :: as) (srhUpdate stack p).2

/-- The packet has a source routing header for a path of `n` addresses that share `c` bytes, of
which the addresses of the list are still to be visited. -/
structure Carries (stack : Stack) (old : Packet) (c n pad : ℕ) (as : List Ipaddr) (p : Packet) :
    Prop where
  shared : c ≤ 15
  left : as.length ≤ n
  fits : 8 + n * (16 - c) + pad < 256
  padding : pad < 8
  consistent : Consistent old p (8 + n * (16 - c) + pad)
  size : p.len ≤ stack.bufSize
  old_len : iphLen ≤ old.len
  proto : p.buf 6 = protoRouting
  type : p.buf (iphLen + 2) = typeSrh
  segments : (p.buf (iphLen + 3)).toNat = as.length
  cmpr : (p.buf (iphLen + 4)).toNat = c * 16 + c
  pads : (p.buf (iphLen + 5)).toNat = pad * 16
  addrs : load p.buf (iphLen + 8 + (n - as.length) * (16 - c)) (as.length * (16 - c)) =
    as.flatMap fun a => a.u8.drop c

variable {stack : Stack} {s : State} {old p q : Packet} {c n pad k l root : ℕ} {a b : Ipaddr}
  {as : List Ipaddr}

theorem length_drop_u8 (a : Ipaddr) (c : ℕ) : (a.u8.drop c).length = 16 - c := by
  rw [List.length_drop, a.length_u8]

/-- Addresses of the path agree in the bytes that they share. -/
theorem take_eq_of_le_countMatchingBytes {xs ys : List UInt8} (h : c ≤ countMatchingBytes xs ys) :
    xs.take c = ys.take c := by
  induction xs generalizing ys c with
  | nil =>
      obtain rfl := Nat.le_zero.1 h
      rfl
  | cons x xs ih =>
      cases ys with
      | nil =>
          obtain rfl := Nat.le_zero.1 h
          rfl
      | cons y ys =>
          rw [countMatchingBytes] at h
          split at h
          · rename_i hxy
            cases c with
            | zero => rfl
            | succ c => rw [List.take_succ_cons, List.take_succ_cons, hxy,
                ih (Nat.le_of_succ_le_succ h)]
          · obtain rfl := Nat.le_zero.1 h
            rfl

namespace Carries

variable (h : Carries stack old c n pad as p)
include h

theorem hdr_eq : (p.buf (iphLen + 1)).toNat * 8 + 8 = 8 + n * (16 - c) + pad := h.consistent.header

theorem searchHeader_eq : p.searchHeader protoRouting = some iphLen := by
  have hhdr := h.hdr_eq
  have hlen := h.consistent.len
  have hold := h.old_len
  have hext : Packet.isProtoExtHdr protoRouting = true := by decide
  have hnext : Packet.getNextHeader p.buf 0 p.len true = (some iphLen, protoRouting) := by
    simp only [Packet.getNextHeader, if_true, Nat.zero_add, h.proto, hext]
    rw [if_neg]
    rw [hhdr]
    simp only [iphLen] at *
    omega
  rw [Packet.searchHeader, hnext, Packet.searchFrom, if_pos rfl]

theorem n_lt : n < 256 := by
  have hfits := h.fits
  have hc := h.shared
  have hmul := Nat.le_mul_of_pos_right n (show 0 < 16 - c by omega)
  omega

/-- The path length that the reader computes is the one that the writer had. -/
theorem pathLen_eq :
    (((((8 + n * (16 - c) + pad) % 256 : ℕ) : ℤ) - pad - 4 - 4 - (16 - c)).tdiv (16 - c) + 1) % 256
      = n := by
  have hfits := h.fits
  have hc := h.shared
  have hn := h.n_lt
  have hnum : (((8 + n * (16 - c) + pad : ℕ) : ℤ)) - pad - 4 - 4 - (16 - c) =
      ((n : ℤ) - 1) * (16 - c) := by
    push_cast [Nat.cast_sub (show c ≤ 16 by omega)]
    ring
  rw [Nat.mod_eq_of_lt hfits, hnum, Int.mul_tdiv_cancel _ (by omega)]
  omega

/-- An update leaves the packet alone, or exchanges the destination for the next address. -/
theorem srhUpdate_eq :
    srhUpdate stack p =
      if as.length = 0 then (true, p)
      else
        (true, { p with
          buf := store (store (store p.buf (24 + c)
              (load p.buf (iphLen + 8 + (n - as.length) * (16 - c)) (16 - c)))
              (iphLen + 8 + (n - as.length) * (16 - c)) (p.destipaddr.u8.drop c))
            (iphLen + 3) [.ofNat (as.length - 1)] }) := by
  have hc := h.shared
  have hpad := h.padding
  have hleft := h.left
  have hcmpri : (p.buf (iphLen + 4)).toNat / 16 = c := by
    rw [h.cmpr]
    omega
  have hcmpre : (p.buf (iphLen + 4)).toNat % 16 = c := by
    rw [h.cmpr]
    omega
  have hpads : (p.buf (iphLen + 5)).toNat / 16 = pad := by
    rw [h.pads]
    omega
  have hpath := congrArg Int.toNat h.pathLen_eq
  rw [Int.toNat_natCast] at hpath
  simp only [srhUpdate, h.searchHeader_eq, h.type, ne_eq, not_true_eq_false, if_false,
    h.segments, h.hdr_eq, hcmpri, hcmpre, hpads, hpath, ite_self]
  split
  · rfl
  · rename_i hsome
    have hroom : ¬ stack.bufSize < iphLen + (4 + 4 + (n - as.length) * (16 - c)) + 16 - c := by
      have hmul : (n - as.length) * (16 - c) + (16 - c) ≤ n * (16 - c) := by
        rw [← Nat.succ_mul]
        exact Nat.mul_le_mul_right _ (by omega)
      have hlen := h.consistent.len
      have hsize := h.size
      have hold := h.old_len
      omega
    rw [if_neg (Nat.not_lt.2 hleft), if_neg hroom]
    simp only [← Nat.add_assoc]

end Carries

theorem load_buf_dest (p : Packet) : load p.buf 24 16 = p.destipaddr.u8 := rfl

namespace Carries

/-- Where the next address is, with the space for `k` more behind it. -/
theorem offset_add (h : Carries stack old c n pad (a :: as) p) :
    iphLen + 8 + (n - (as.length + 1)) * (16 - c) + (16 - c) =
      iphLen + 8 + (n - as.length) * (16 - c) := by
  have hleft := h.left
  rw [List.length_cons] at hleft
  have hsucc : n - as.length = n - (as.length + 1) + 1 := by omega
  rw [hsucc, Nat.succ_mul, Nat.add_assoc]

/-- The next address is in front of the others. -/
theorem load_next (h : Carries stack old c n pad (a :: as) p) :
    load p.buf (iphLen + 8 + (n - (as.length + 1)) * (16 - c)) (16 - c) = a.u8.drop c ∧
      load p.buf (iphLen + 8 + (n - as.length) * (16 - c)) (as.length * (16 - c)) =
        as.flatMap fun a => a.u8.drop c := by
  have haddrs := h.addrs
  rw [List.length_cons, Nat.succ_mul, Nat.add_comm (as.length * _), load_add, h.offset_add,
    List.flatMap_cons] at haddrs
  refine List.append_inj haddrs ?_
  rw [length_load, length_drop_u8]

/-- The update takes the next address. -/
theorem srhUpdate_cons (h : Carries stack old c n pad (a :: as) p)
    (hshare : p.destipaddr.u8.take c = a.u8.take c) :
    ∃ q, srhUpdate stack p = (true, q) ∧ Carries stack old c n pad as q ∧ q.destipaddr = a := by
  obtain ⟨hnext, hrest⟩ := h.load_next
  have hoffset := h.offset_add
  have hc := h.shared
  have hleft := h.left
  have hfits := h.fits
  have hmul : (n - as.length) * (16 - c) ≤ n * (16 - c) :=
    Nat.mul_le_mul_right _ (Nat.sub_le _ _)
  rw [List.length_cons] at hleft
  rw [h.srhUpdate_eq, List.length_cons, if_neg (Nat.succ_ne_zero _), hnext]
  have hiph : iphLen = 40 := rfl
  rw [← hoffset] at hrest
  generalize hoff : iphLen + 8 + (n - (as.length + 1)) * (16 - c) = off at *
  have hlow : iphLen + 8 ≤ off := hoff ▸ Nat.le_add_right _ _
  have hX := length_drop_u8 a c
  have hY := length_drop_u8 p.destipaddr c
  refine ⟨_, rfl, ?_⟩
  generalize hq : ({ p with buf := _ } : Packet) = q
  have hm : q.buf = store (store (store p.buf (24 + c) (a.u8.drop c)) off
      (p.destipaddr.u8.drop c)) (iphLen + 3) [.ofNat (as.length + 1 - 1)] := by rw [← hq]
  have hlen : q.len = p.len := by rw [← hq]
  have hbyte : ∀ i, i < 24 + c ∨ iphLen ≤ i → i < off ∨ off + (16 - c) ≤ i → i ≠ iphLen + 3 →
      q.buf i = p.buf i := by
    intro i h₁ h₂ h₃
    rw [hm, store_of_outside, store_of_outside (by omega), store_of_outside (by omega)]
    rw [List.length_singleton]
    omega
  have hload : ∀ r k, r + k ≤ 24 + c ∨ iphLen + 4 ≤ r → r + k ≤ off ∨ off + (16 - c) ≤ r →
      load q.buf r k = load p.buf r k := fun r k h₁ h₂ =>
    load_congr fun i hi hi' => hbyte i (by omega) (by omega) (by omega)
  have hdest : load q.buf (24 + c) (16 - c) = a.u8.drop c := by
    rw [hm, load_store_of_disjoint (by omega), load_store_of_disjoint (by omega), ← hX,
      load_store]
  refine ⟨?_, Ipaddr.ext ?_⟩
  · refine ⟨hc, by omega, hfits, h.padding, ⟨hlen.trans h.consistent.len, ?_, ?_, ?_⟩,
      hlen.trans_le h.size, h.old_len, ?_, ?_, ?_, ?_, ?_, ?_⟩
    · rw [hlen, ← h.consistent.field, Packet.lenField, Packet.lenField]
      rw [hbyte 4 (by omega) (by omega) (by omega), hbyte 5 (by omega) (by omega) (by omega)]
    · rw [← h.consistent.header, hbyte _ (by omega) (by omega) (by omega)]
    · rw [← h.consistent.payload, hload _ _ (by omega) (by omega)]
    · rw [← h.proto, hbyte _ (by omega) (by omega) (by omega)]
    · rw [← h.type, hbyte _ (by omega) (by omega) (by omega)]
    · have hn := h.n_lt
      rw [hm, ← Nat.add_zero (iphLen + 3), store_add (by simp)]
      simp
      omega
    · rw [← h.cmpr, hbyte _ (by omega) (by omega) (by omega)]
    · rw [← h.pads, hbyte _ (by omega) (by omega) (by omega)]
    · rw [← hrest, ← hoffset, hload _ _ (by omega) (by omega)]
  · change load q.buf 24 16 = a.u8
    have hsplit : 16 = c + (16 - c) := by omega
    rw [hsplit, load_add, hdest, hload _ _ (by omega) (by omega), ← take_load (by omega : c ≤ 16),
      load_buf_dest, hshare, List.take_append_drop]

/-- The last destination leaves the packet alone. -/
theorem srhUpdate_nil (h : Carries stack old c n pad [] p) : srhUpdate stack p = (true, p) := by
  rw [h.srhUpdate_eq]
  rfl

/-- The packet visits its destination, and then the addresses that it carries. -/
theorem visits (h : Carries stack old c n pad as p)
    (hshare : ∀ b ∈ as, b.u8.take c = p.destipaddr.u8.take c) :
    Visits stack old (8 + n * (16 - c) + pad) (p.destipaddr :: as) p := by
  induction as generalizing p with
  | nil => exact ⟨h.consistent, rfl, UInt8.toNat_inj.1 h.segments, h.srhUpdate_nil⟩
  | cons b as ih =>
      obtain ⟨q, hq, hcarries, hdest⟩ := h.srhUpdate_cons (hshare b List.mem_cons_self).symm
      rw [Visits, hq]
      refine ⟨h.consistent, rfl, rfl, ?_⟩
      have hvisits := ih hcarries fun x hx => by
        rw [hdest, hshare x (List.mem_cons_of_mem _ hx), hshare b List.mem_cons_self]
      rwa [hdest] at hvisits

end Carries

end Den2ne.SourceRoute
