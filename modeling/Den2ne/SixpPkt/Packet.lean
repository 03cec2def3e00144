import Den2ne.SixpPkt.Access

/-!
# 6P packets

`sixp_pkt_create` and `sixp_pkt_parse`, and what `packetbuf.c` does for them. The packet buffer is
the memory from `packetbuf` on, of which the first `PACKETBUF_SIZE` bytes are its own; what is
behind them may change at any time. A body is the memory at the pointer, if it is not NULL, and its
length.
-/

namespace Den2ne.SixpPkt

open Sixp (PktType)

/-! ## The packet buffer -/

/-- `PACKETBUF_SIZE`. -/
structure Config where
  packetbufSize : ℕ
  packetbufSize_lt : packetbufSize < 65536

/-- `packetbuf`, `buflen`, `bufptr` and `hdrlen`. -/
structure Packetbuf where
  packetbuf : ℕ → UInt8
  buflen : UInt16
  bufptr : UInt16
  hdrlen : UInt8

/-- `packetbuf_clear`. -/
def packetbufClear (p : Packetbuf) : Packetbuf := { p with buflen := 0, bufptr := 0, hdrlen := 0 }

/-- `packetbuf_hdrlen`. -/
def packetbufHdrlen (p : Packetbuf) : UInt8 := UInt8.ofNat (p.bufptr.toNat + p.hdrlen.toNat)

/-- `packetbuf_totlen`. -/
def packetbufTotlen (p : Packetbuf) : UInt16 :=
  UInt16.ofNat ((packetbufHdrlen p).toNat + p.buflen.toNat)

/-- `packetbuf_hdralloc`. -/
def packetbufHdralloc (cfg : Config) (size : ℕ) (p : Packetbuf) : Option Packetbuf :=
  if cfg.packetbufSize < size + (packetbufTotlen p).toNat then none
  else some { p with
    packetbuf := Memory.store p.packetbuf size
      (Memory.load p.packetbuf 0 (packetbufTotlen p).toNat)
    hdrlen := p.hdrlen + UInt8.ofNat size }

/-! ## Packets -/

/-- `sixp_pkt_type_t` as a number. -/
def typeValue : PktType → ℕ
  | .request => 0
  | .response => 1
  | .confirmation => 2
  | .reserved => 3

/-- `sixp_pkt_type_t` of two bits. -/
def typeOfBits : ℕ → PktType
  | 0 => .request
  | 1 => .response
  | 2 => .confirmation
  | _ => .reserved

/-- `sixp_pkt_t`; `body` is a position in the buffer. -/
structure SixpPktT where
  version : ℕ
  type : PktType
  code : UInt8
  sfid : UInt8
  seqno : UInt8
  body : ℕ
  bodyLen : ℕ
deriving DecidableEq, Repr

/-- `SIXP_PKT_VERSION`. -/
def sixpPktVersion : ℕ := 0

/-- The tests of the length of the body in `sixp_pkt_parse`. -/
def LenOk (m : Msg) (len : ℕ) : Prop :=
  match m.type with
  | .request =>
      if m.code = cmdAdd ∨ m.code = cmdDelete ∨ m.code = cmdRelocate then
        2 + 1 + 1 ≤ len ∧ len % 4 = 0
      else if m.code = cmdCount then len = 2 + 1
      else if m.code = cmdList then len = 2 + 1 + 1 + 2 + 2
      else if m.code = cmdSignal then 2 ≤ len
      else if m.code = cmdClear then len = 2
      else False
  | .response | .confirmation =>
      if m.code = rcSuccess then True
      else if m.code = rcEol then len % 4 = 0
      else if 2 ≤ m.code.toNat ∧ m.code.toNat ≤ 9 then len = 0
      else False
  | .reserved => False

instance (m : Msg) (len : ℕ) : Decidable (LenOk m len) := by
  unfold LenOk
  split <;> infer_instance

/-- `sixp_pkt_parse`. -/
def sixpPktParse (buf : ℕ → UInt8) (len : UInt16) : Option SixpPktT :=
  if len.toNat < 4 then none
  else
    let version := (buf 0).toNat % 0x10
    let type := typeOfBits ((buf 0).toNat / 0x10 % 4)
    if version ≠ sixpPktVersion then none
    else if LenOk ⟨type, buf 1⟩ (len.toNat - 4) then
      some ⟨version, type, buf 1, buf 2, buf 3, 4, len.toNat - 4⟩
    else none

/-- `sixp_pkt_create`; the copy of the arguments into `pkt` is left out. -/
def sixpPktCreate (cfg : Config) (m : Msg) (sfid seqno : UInt8) (body : Option (ℕ → UInt8))
    (bodyLen : UInt16) (p : Packetbuf) : Option Packetbuf :=
  if (body = none ∧ 0 < bodyLen.toNat) ∨ (body ≠ none ∧ bodyLen = 0) then none
  else
    let p := packetbufClear p
    if cfg.packetbufSize < (packetbufTotlen p).toNat + bodyLen.toNat then none
    else
      match packetbufHdralloc cfg 4 p with
      | none => none
      | some p =>
          let hdr := [UInt8.ofNat (typeValue m.type * 0x10 + sixpPktVersion), m.code, sfid, seqno]
          let p := { p with packetbuf := Memory.store p.packetbuf 0 hdr }
          match body with
          | none => some p
          | some body => some { p with
              packetbuf := Memory.store p.packetbuf (packetbufHdrlen p).toNat
                (Memory.load body 0 bodyLen.toNat)
              buflen := bodyLen }

/-! ## The round trip -/

/-- The bytes of a body. -/
def bodyBytes (body : Option (ℕ → UInt8)) (bodyLen : UInt16) : List UInt8 :=
  match body with
  | none => []
  | some body => Memory.load body 0 bodyLen.toNat

/-- Parsing the packet gives back what it was created from, whatever is behind the buffer. -/
def Recovered (cfg : Config) (m : Msg) (sfid seqno : UInt8) (bytes : List UInt8) (p : Packetbuf) :
    Prop :=
  ∀ mem, (∀ i < cfg.packetbufSize, mem i = p.packetbuf i) →
    ∃ body, sixpPktParse mem (packetbufTotlen p) =
        some ⟨sixpPktVersion, m.type, m.code, sfid, seqno, body, bytes.length⟩ ∧
      Memory.load mem body bytes.length = bytes

variable {cfg : Config} {m : Msg} {sfid seqno : UInt8} {body : Option (ℕ → UInt8)}
  {bodyLen : UInt16} {p p' : Packetbuf} {mem : ℕ → UInt8} {len : ℕ}

/-- The header of a packet. -/
def header (m : Msg) (sfid seqno : UInt8) : List UInt8 :=
  [UInt8.ofNat (typeValue m.type * 0x10 + sixpPktVersion), m.code, sfid, seqno]

/-- A pointer is NULL exactly if the length is 0. -/
def Given (body : Option (ℕ → UInt8)) (bodyLen : UInt16) : Prop := body = none ↔ bodyLen = 0

theorem Given.length_bodyBytes (h : Given body bodyLen) :
    (bodyBytes body bodyLen).length = bodyLen.toNat := by
  cases body with
  | none =>
      rw [h.1 rfl]
      rfl
  | some body => exact Memory.length_load body 0 _

/-- What `sixp_pkt_create` makes. -/
structure Created (cfg : Config) (m : Msg) (sfid seqno : UInt8) (bytes : List UInt8)
    (p : Packetbuf) : Prop where
  four_le : 4 ≤ cfg.packetbufSize
  length_le : bytes.length ≤ cfg.packetbufSize
  totlen : packetbufTotlen p = UInt16.ofNat (4 + bytes.length)
  header : Memory.load p.packetbuf 0 4 = header m sfid seqno
  body : Memory.load p.packetbuf 4 bytes.length = bytes

theorem created_of_create (hgiven : Given body bodyLen)
    (h : sixpPktCreate cfg m sfid seqno body bodyLen p = some p') :
    Created cfg m sfid seqno (bodyBytes body bodyLen) p' := by
  have hlen := hgiven.length_bodyBytes
  have hzero : packetbufTotlen (packetbufClear p) = 0 := rfl
  unfold sixpPktCreate at h
  split at h
  · cases h
  · dsimp only at h
    rw [hzero, UInt16.toNat_zero, Nat.zero_add] at h
    split at h
    · cases h
    · rename_i hsize
      unfold packetbufHdralloc at h
      rw [hzero, UInt16.toNat_zero, Memory.load_zero, Memory.store_nil] at h
      split at h
      · cases h
      · rename_i p₁ hp₁
        split at hp₁
        · cases hp₁
        · rename_i hfour
          obtain rfl := Option.some.inj hp₁
          cases body with
          | none =>
              obtain rfl := Option.some.inj h
              exact ⟨by omega, Nat.zero_le _, rfl, Memory.load_store _ 0 (header m sfid seqno), rfl⟩
          | some body =>
              obtain rfl := Option.some.inj h
              have hload : (bodyBytes (some body) bodyLen).length = bodyLen.toNat := hlen
              refine ⟨by omega, by omega, ?_, ?_, ?_⟩
              · rw [hload]
                rfl
              · have hstore : Memory.load (Memory.store
                    (Memory.store p.packetbuf 0 (header m sfid seqno)) 4
                    (bodyBytes (some body) bodyLen)) 0 4 = header m sfid seqno :=
                  (Memory.load_store_of_disjoint (.inl (Nat.le_refl 4))).trans
                    (Memory.load_store _ 0 (header m sfid seqno))
                exact hstore
              · exact Memory.load_store _ 4 (bodyBytes (some body) bodyLen)

theorem header_bits (t : PktType) :
    (UInt8.ofNat (typeValue t * 0x10 + sixpPktVersion)).toNat % 0x10 = sixpPktVersion ∧
      typeOfBits ((UInt8.ofNat (typeValue t * 0x10 + sixpPktVersion)).toNat / 0x10 % 4) = t := by
  cases t <;> exact ⟨rfl, rfl⟩

/-- A packet with this header and a body of this length is parsed. -/
theorem sixpPktParse_of_header (hheader : Memory.load mem 0 4 = header m sfid seqno)
    (hlen : LenOk m len) (hlt : 4 + len < 65536) :
    sixpPktParse mem (UInt16.ofNat (4 + len)) =
      some ⟨sixpPktVersion, m.type, m.code, sfid, seqno, 4, len⟩ := by
  have hbytes : [mem 0, mem 1, mem 2, mem 3] = header m sfid seqno := hheader
  simp only [header, List.cons.injEq, and_true] at hbytes
  obtain ⟨h0, h1, h2, h3⟩ := hbytes
  obtain ⟨hversion, htype⟩ := header_bits m.type
  have hn : (UInt16.ofNat (4 + len)).toNat = 4 + len := by
    rw [UInt16.toNat_ofNat', Nat.mod_eq_of_lt hlt]
  have hsub : 4 + len - 4 = len := Nat.add_sub_cancel_left 4 len
  unfold sixpPktParse
  rw [hn, if_neg (by omega), h0, h1, h2, h3]
  dsimp only
  rw [hversion, htype, hsub, if_neg (not_not.2 rfl), if_pos hlen]

/-- The first position of the body is fixed. -/
theorem body_eq_four {r : SixpPktT} {n : UInt16} (h : sixpPktParse mem n = some r) :
    r.body = 4 := by
  unfold sixpPktParse at h
  split at h
  · cases h
  · dsimp only at h
    split at h
    · cases h
    · split at h
      · obtain rfl := Option.some.inj h
        rfl
      · cases h

theorem Created.recovered (h : Created cfg m sfid seqno (bodyBytes body bodyLen) p)
    (hlen : LenOk m (bodyBytes body bodyLen).length)
    (hfit : 4 + (bodyBytes body bodyLen).length ≤ cfg.packetbufSize) :
    Recovered cfg m sfid seqno (bodyBytes body bodyLen) p := by
  intro mem hmem
  have hsize := cfg.packetbufSize_lt
  have hheader : Memory.load mem 0 4 = Memory.load p.packetbuf 0 4 :=
    Memory.load_congr fun i _ hi => hmem i (by omega)
  have hbody : Memory.load mem 4 (bodyBytes body bodyLen).length =
      Memory.load p.packetbuf 4 (bodyBytes body bodyLen).length :=
    Memory.load_congr fun i _ hi => hmem i (by omega)
  refine ⟨4, ?_, hbody.trans h.body⟩
  rw [h.totlen]
  exact sixpPktParse_of_header (hheader.trans h.header) hlen (by omega)

/-- A packet is recovered exactly if its header and its body fit the buffer together. -/
theorem recovered_iff (hgiven : Given body bodyLen) (hlen : LenOk m bodyLen.toNat)
    (h : sixpPktCreate cfg m sfid seqno body bodyLen p = some p') :
    Recovered cfg m sfid seqno (bodyBytes body bodyLen) p' ↔
      4 + bodyLen.toNat ≤ cfg.packetbufSize := by
  have hcreated := created_of_create hgiven h
  have hlength := hgiven.length_bodyBytes
  have hfour := hcreated.four_le
  constructor
  · intro hrec
    by_contra hlong
    -- Something else is stored in the first byte behind the buffer.
    have hmem : ∀ i < cfg.packetbufSize, Function.update p'.packetbuf cfg.packetbufSize
        (p'.packetbuf cfg.packetbufSize + 1) i = p'.packetbuf i :=
      fun i hi => Function.update_of_ne (Nat.ne_of_lt hi) _ _
    obtain ⟨b, hparse, hload⟩ := hrec _ hmem
    obtain rfl : b = 4 := body_eq_four hparse
    have hsame := hload.trans hcreated.body.symm
    have hi : cfg.packetbufSize - 4 < (bodyBytes body bodyLen).length := by omega
    have hbyte := congrArg (fun l => l[cfg.packetbufSize - 4]?) hsame
    simp only [Memory.getElem?_load hi, Nat.add_sub_cancel' hfour, Function.update_self,
      Option.some.injEq] at hbyte
    have hnat := congrArg UInt8.toNat hbyte
    rw [UInt8.toNat_add, UInt8.toNat_one] at hnat
    omega
  · intro hfit
    rw [← hlength] at hlen hfit
    exact hcreated.recovered hlen hfit

/-- A packet is created exactly if its header and its body fit the buffer on their own. -/
theorem isSome_sixpPktCreate_iff (hgiven : Given body bodyLen) :
    (sixpPktCreate cfg m sfid seqno body bodyLen p).isSome ↔
      4 ≤ cfg.packetbufSize ∧ bodyLen.toNat ≤ cfg.packetbufSize := by
  have hzero : packetbufTotlen (packetbufClear p) = 0 := rfl
  have hargs : ¬ ((body = none ∧ 0 < bodyLen.toNat) ∨ (body ≠ none ∧ bodyLen = 0)) := by
    rintro (⟨hnone, hpos⟩ | ⟨hsome, hlen⟩)
    · rw [hgiven.1 hnone] at hpos
      exact Nat.lt_irrefl 0 hpos
    · exact hsome (hgiven.2 hlen)
  unfold sixpPktCreate
  rw [if_neg hargs]
  dsimp only
  rw [hzero, UInt16.toNat_zero, Nat.zero_add]
  split
  · rename_i hlong
    exact iff_of_false Bool.false_ne_true fun h => Nat.not_lt.2 h.2 hlong
  · rename_i hlen
    unfold packetbufHdralloc
    rw [hzero, UInt16.toNat_zero]
    split
    · rename_i hp
      split at hp
      · rename_i hfour
        exact iff_of_false Bool.false_ne_true fun h => by omega
      · cases hp
    · rename_i hp
      split at hp
      · cases hp
      · rename_i hfour
        refine iff_of_true ?_ ⟨by omega, Nat.not_lt.1 hlen⟩
        cases body <;> rfl

end Den2ne.SixpPkt
