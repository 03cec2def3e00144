import Den2ne.SourceRoute.Remove
import Mathlib.Algebra.Ring.Nat

/-!
# Chains of extension headers

A datagram as its parts: the IPv6 header, a list of extension headers, and the payload with the
protocol of the upper layer. Each header is named by the field before it, so that a list of headers
has one encoding, in which every next-header field names the header that follows. `Holds` says that
a packet is the encoding of a datagram.
-/

namespace Den2ne.SourceRoute

open Memory

/-- An extension header: the protocol that names it, its length field and what follows that. -/
structure ExtHdr where
  proto : UInt8
  len : UInt8
  data : List UInt8
  isExt : Packet.isProtoExtHdr proto = true
  length_data : data.length = len.toNat * 8 + 6

namespace ExtHdr

/-- The header is one that `rpl_ext_header_remove` is to remove. -/
def IsRpl (h : ExtHdr) : Prop :=
  h.proto = protoRouting ∨ (h.proto = protoHbho ∧ h.data.head? = some optRpl)

instance (h : ExtHdr) : Decidable h.IsRpl := inferInstanceAs (Decidable (_ ∨ _))

/-- The number of bytes. -/
def size (h : ExtHdr) : ℕ := h.len.toNat * 8 + 8

end ExtHdr

/-- The protocol that names what comes first. -/
def nextProto (upper : UInt8) : List ExtHdr → UInt8
  | [] => upper
  | h :: _ => h.proto

/-- The bytes of the headers before an upper layer. -/
def chainBytes (upper : UInt8) : List ExtHdr → List UInt8
  | [] => []
  | h :: hs => nextProto upper hs :: h.len :: (h.data ++ chainBytes upper hs)

/-- The bytes of the headers to remove. -/
def rplSize (hs : List ExtHdr) : ℕ := ((hs.filter (·.IsRpl)).map ExtHdr.size).sum

/-- What `rpl_ext_header_remove` is to leave. -/
def withoutRpl (hs : List ExtHdr) : List ExtHdr := hs.filter (¬ ·.IsRpl)

/-- An IPv6 packet: what is before the length, what is behind the next-header field, the headers and
the upper layer. -/
structure Datagram where
  first : List UInt8
  fixed : List UInt8
  exts : List ExtHdr
  upper : UInt8
  payload : List UInt8
  length_first : first.length = 4
  length_fixed : fixed.length = 33
  upper_eq : Packet.isProtoExtHdr upper = false

namespace Datagram

/-- What comes behind the IPv6 header. -/
def body (d : Datagram) : List UInt8 := chainBytes d.upper d.exts ++ d.payload

/-- The bytes of the packet. -/
def bytes (d : Datagram) : List UInt8 :=
  d.first ++ ([.ofNat (d.body.length / 256), .ofNat d.body.length] ++
    (nextProto d.upper d.exts :: (d.fixed ++ d.body)))

end Datagram

/-- The packet is the datagram. -/
def Packet.Holds (p : Packet) (d : Datagram) : Prop := load p.buf 0 p.len = d.bytes

variable {p q : Packet} {d : Datagram} {h : ExtHdr} {hs gs : List ExtHdr} {upper u v : UInt8}
  {payload : List UInt8} {pos : ℕ}

/-! ## Encodings -/

theorem chainBytes_cons (upper : UInt8) (h : ExtHdr) (hs : List ExtHdr) :
    chainBytes upper (h :: hs) =
      nextProto upper hs :: h.len :: (h.data ++ chainBytes upper hs) := rfl

/-- To the headers before it, a chain is the upper layer. -/
theorem chainBytes_append (upper : UInt8) (hs gs : List ExtHdr) :
    chainBytes upper (hs ++ gs) = chainBytes (nextProto upper gs) hs ++ chainBytes upper gs := by
  induction hs with
  | nil => rfl
  | cons h hs ih =>
      have hnext : nextProto upper (hs ++ gs) = nextProto (nextProto upper gs) hs := by
        cases hs <;> rfl
      rw [List.cons_append, chainBytes_cons, chainBytes_cons, hnext, ih, ← List.append_assoc]
      rfl

theorem length_chainBytes (upper : UInt8) (hs : List ExtHdr) :
    (chainBytes upper hs).length = (hs.map ExtHdr.size).sum := by
  induction hs with
  | nil => rfl
  | cons h hs ih =>
      rw [chainBytes_cons, List.length_cons, List.length_cons, List.length_append, ih,
        h.length_data, List.map_cons, List.sum_cons, ExtHdr.size]
      omega

/-- The last header of a chain shows what comes behind it. -/
theorem chainBytes_inj (hne : hs ≠ []) (heq : chainBytes u hs = chainBytes v hs) : u = v := by
  induction hs with
  | nil => exact absurd rfl hne
  | cons h hs ih =>
      rw [chainBytes_cons, chainBytes_cons, List.cons.injEq, List.cons.injEq] at heq
      obtain ⟨hproto, _, hrest⟩ := heq
      cases hs with
      | nil => exact hproto
      | cons g gs => exact ih (List.cons_ne_nil g gs) (List.append_cancel_left hrest)

theorem length_bytes (d : Datagram) : d.bytes.length = iphLen + d.body.length := by
  simp only [Datagram.bytes, List.length_append, List.length_cons, List.length_nil,
    d.length_first, d.length_fixed]
  have hiph : iphLen = 40 := rfl
  omega

/-! ## Packets -/

/-- The parts of a packet that is a datagram. -/
structure Packet.Parts (p : Packet) (d : Datagram) : Prop where
  len : p.len = iphLen + d.body.length
  first : load p.buf 0 4 = d.first
  field : load p.buf 4 2 = [.ofNat (d.body.length / 256), .ofNat d.body.length]
  proto : p.buf 6 = nextProto d.upper d.exts
  fixed : load p.buf 7 33 = d.fixed
  body : load p.buf iphLen d.body.length = d.body

theorem holds_iff : p.Holds d ↔ p.Parts d := by
  have hsplit : ∀ n, load p.buf 0 (iphLen + n) =
      load p.buf 0 4 ++ (load p.buf 4 2 ++
        (p.buf 6 :: (load p.buf 7 33 ++ load p.buf iphLen n))) := by
    intro n
    have hlen : iphLen + n = 4 + (2 + (1 + (33 + n))) := by
      have hiph : iphLen = 40 := rfl
      omega
    rw [hlen, load_add, load_add, load_add, load_add]
    rfl
  constructor
  · intro h
    have hlen := congrArg List.length h
    rw [length_load, length_bytes] at hlen
    unfold Packet.Holds at h
    rw [hlen, hsplit, Datagram.bytes] at h
    obtain ⟨hfirst, h⟩ := List.append_inj h ((length_load _ _ _).trans d.length_first.symm)
    obtain ⟨hfield, h⟩ := List.append_inj h (length_load _ _ _)
    obtain ⟨hproto, h⟩ := List.cons.inj h
    obtain ⟨hfixed, hbody⟩ := List.append_inj h ((length_load _ _ _).trans d.length_fixed.symm)
    exact ⟨hlen, hfirst, hfield, hproto, hfixed, hbody⟩
  · intro h
    unfold Packet.Holds
    rw [h.len, hsplit, h.first, h.field, h.proto, h.fixed, h.body, Datagram.bytes]

end Den2ne.SourceRoute
