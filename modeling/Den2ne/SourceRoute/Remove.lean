import Den2ne.SourceRoute.Header

/-!
# Headers that RPL adds and removes

`rpl-ext-header.c`: the loop that removes the routing headers and the hop-by-hop headers with the
RPL option, and the insertion of such a hop-by-hop header. `next_header` and `prev_proto_ptr` are
positions in `uip_buf`; `ext_ptr` is `next_header` all along the loop.
-/

namespace Den2ne.SourceRoute

open Memory

/-- `UIP_PROTO_HBHO`. -/
def protoHbho : UInt8 := 0

/-- `UIP_EXT_HDR_OPT_RPL`. -/
def optRpl : UInt8 := 0x63

/-- `RPL_HDR_OPT_LEN`. -/
def hdrOptLen : UInt8 := 4

/-- `RPL_HOP_BY_HOP_LEN`. -/
def hopByHopLen : ℕ := 8

/-- What is used of `curr_instance`. -/
structure Instance where
  used : Bool
  instanceId : UInt8
  rank : UInt16

namespace Packet

/-- `uipbuf_add_ext_hdr`, for a header that is removed. -/
def subExtHdr (p : Packet) (len : ℕ) : Option Packet :=
  if p.len ≤ linkMtu + len ∧ len ≤ p.len ∧ len ≤ p.extLen then
    some { p with len := p.len - len, extLen := p.extLen - len }
  else none

/-- `uip_len - UIP_IPH_LEN` as a `uint16_t`. -/
def payloadLen (p : Packet) : ℕ := (p.len + 65536 - iphLen) % 65536

/-- `*prev_proto_ptr = ext_ptr->next`. -/
def relink (p : Packet) (pos prev : ℕ) : Packet := { p with buf := store p.buf prev [p.buf pos] }

/-- Move the rest of the packet to the left. -/
def moveLeft (p : Packet) (pos len : ℕ) : Packet :=
  { p with buf := store p.buf pos (load p.buf (pos + len) (p.len - pos)) }

/-- The length of the extension header at `pos`. -/
def extHdrLen (p : Packet) (pos : ℕ) : ℕ := (p.buf (pos + 1)).toNat * 8 + 8

/-- The header at `pos` is to be removed if it is of this protocol. -/
def Removes (p : Packet) (pos : ℕ) (protocol : UInt8) : Prop :=
  protocol = protoRouting ∨ (protocol = protoHbho ∧ p.buf (pos + 2) = optRpl)

instance (p : Packet) (pos : ℕ) (protocol : UInt8) : Decidable (p.Removes pos protocol) :=
  inferInstanceAs (Decidable (_ ∨ _))

end Packet

theorem getNextHeader_eq_some {buf : ℕ → UInt8} {pos size next : ℕ} {proto : UInt8}
    (h : Packet.getNextHeader buf pos size false = (some next, proto)) :
    next = pos + ((buf (pos + 1)).toNat * 8 + 8) ∧ next ≤ pos + size ∧ proto = buf pos := by
  unfold Packet.getNextHeader at h
  simp only [Bool.false_eq_true, if_false] at h
  generalize (if Packet.isProtoExtHdr (buf pos) = true then _ else _ : ℕ) = nextHdrLen at h
  split at h
  · cases h
  · rename_i hfit
    rw [Prod.mk.injEq, Option.some.injEq] at h
    exact ⟨h.1.symm, by omega, h.2.symm⟩

theorem Packet.subExtHdr_eq_some {p q : Packet} {len : ℕ} (h : p.subExtHdr len = some q) :
    len ≤ p.len ∧ len ≤ p.extLen ∧ p.len ≤ linkMtu + len ∧
      q = { p with len := p.len - len, extLen := p.extLen - len } := by
  unfold Packet.subExtHdr at h
  split at h
  · rename_i hle
    exact ⟨hle.2.1, hle.2.2, hle.1, (Option.some.inj h).symm⟩
  · cases h

/-- The loop of `rpl_ext_header_remove`. -/
def removeFrom (p : Packet) (pos prev : ℕ) (protocol : UInt8) : Bool × Packet :=
  if Packet.isProtoExtHdr protocol then
    if p.Removes pos protocol then
      let extLen := (p.relink pos prev).extHdrLen pos
      match _hsub : (p.relink pos prev).subExtHdr extLen with
      | none => (false, p.relink pos prev)
      | some q =>
          if _hend : q.len ≤ pos then (false, q.setLenField q.payloadLen)
          else
            let q := (q.setLenField q.payloadLen).moveLeft pos extLen
            removeFrom q pos prev (q.buf prev)
    else
      match _hnext : Packet.getNextHeader p.buf pos (p.len - pos) false with
      | (none, _) => (true, p)
      | (some next, protocol) => removeFrom p next next protocol
  else (true, p)
termination_by p.len - pos
decreasing_by
  · obtain ⟨hle, _, _, rfl⟩ := Packet.subExtHdr_eq_some _hsub
    have hlen : p.len - extLen - pos < p.len - pos := by
      have height : 8 ≤ extLen := Nat.le_add_left 8 _
      have hlt : ¬ p.len - extLen ≤ pos := _hend
      have hle' : extLen ≤ p.len := hle
      omega
    exact hlen
  · obtain ⟨rfl, hle, _⟩ := getNextHeader_eq_some _hnext
    omega

/-- `rpl_ext_header_remove`. -/
def rplExtHeaderRemove (p : Packet) : Bool × Packet :=
  match Packet.getNextHeader p.buf 0 p.len true with
  | (none, _) => (true, p)
  | (some pos, protocol) => removeFrom p pos 6 protocol

/-! ## The hop-by-hop header -/

/-- `update_hbh_header`. -/
def updateHbhHeader (inst : Instance) (p : Packet) : Bool × Packet :=
  if p.buf 6 = protoHbho ∧ p.buf (iphLen + 2) = optRpl then
    if p.buf (iphLen + 1) ≠ .ofNat ((hopByHopLen - 8) / 8) ∨ p.buf (iphLen + 3) ≠ hdrOptLen then
      (false, p)
    else if inst.used = false ∨ inst.instanceId ≠ p.buf (iphLen + 5) then (false, p)
    else
      let option := [inst.instanceId, .ofNat (inst.rank.toNat / 256), .ofNat inst.rank.toNat]
      (true, { p with buf := store p.buf (iphLen + 5) option })
  else (true, p)

/-- `insert_hbh_header`; `none` if it writes outside `uip_buf`. -/
def insertHbhHeader (stack : Stack) (inst : Instance) (p : Packet) : Option (Bool × Packet) :=
  if linkMtu < p.len + hopByHopLen then some (false, p)
  else do
    let buf ← put stack.bufSize (iphLen + hopByHopLen) (load p.buf iphLen (p.len - iphLen)) p.buf
    let buf ← put stack.bufSize iphLen (List.replicate hopByHopLen 0) buf
    let buf ← put stack.bufSize iphLen [buf 6] buf
    let buf ← put stack.bufSize 6 [protoHbho] buf
    let buf ← put stack.bufSize (iphLen + 1)
      [.ofNat ((hopByHopLen - 8) / 8), optRpl, hdrOptLen, 0, inst.instanceId,
        .ofNat (inst.rank.toNat / 256), .ofNat inst.rank.toNat] buf
    let p := Packet.addExtHdr { p with buf := buf } hopByHopLen
    return updateHbhHeader inst (p.setLenField p.payloadLen)

end Den2ne.SourceRoute
