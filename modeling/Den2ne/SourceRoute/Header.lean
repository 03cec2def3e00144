import Den2ne.Memory.Range
import Den2ne.SourceRoute.Graph

/-!
# The source routing header

`rpl-ext-header.c`: the root puts a source routing header behind the IPv6 header of a packet that
goes down, and every destination of the packet takes the next one from it. The header lengths are
of type `uint8_t`; `none` stands for a write outside `uip_buf`, or for a loop that does not end.
-/

namespace Den2ne.SourceRoute

open Memory

/-- `UIP_LINK_MTU`. -/
def linkMtu : ℕ := 1280

/-- `UIP_IPH_LEN`. -/
def iphLen : ℕ := 40

/-- `UIP_PROTO_ROUTING`. -/
def protoRouting : UInt8 := 43

/-- `RPL_RH_TYPE_SRH`. -/
def typeSrh : UInt8 := 3

/-- `curr_instance.dag.prefix_info.length`, which is what `rpl_dag_root_start` gives. -/
def prefixLength : ℕ := 64

structure Stack where
  sr : Config
  /-- `UIP_BUFSIZE` -/
  bufSize : ℕ

/-- `uip_buf`, `uip_len` and `uip_ext_len`. -/
structure Packet where
  buf : ℕ → UInt8
  len : ℕ
  extLen : ℕ

namespace Packet

/-- `UIP_IP_BUF->destipaddr`. -/
def destipaddr (p : Packet) : Ipaddr := ⟨load p.buf 24 16, length_load p.buf 24 16⟩

/-- `uip_is_proto_ext_hdr`. -/
def isProtoExtHdr (proto : UInt8) : Bool := proto ≠ 6 ∧ proto ≠ 17 ∧ proto ≠ 58

/-- `UIP_TCPH_LEN`, `UIP_UDPH_LEN` and `UIP_ICMPH_LEN`. -/
def upperHdrLen (proto : UInt8) : ℕ :=
  if proto = 6 then 20 else if proto = 17 then 8 else if proto = 58 then 4 else 0

/-- `uipbuf_get_next_header`, for the header at `pos`: where the next one is, and its protocol. -/
def getNextHeader (buf : ℕ → UInt8) (pos size : ℕ) (start : Bool) : Option ℕ × UInt8 :=
  let proto := if start then buf (pos + 6) else buf pos
  let currHdrLen := if start then iphLen else (buf (pos + 1)).toNat * 8 + 8
  let next := pos + currHdrLen
  let nextHdrLen :=
    if isProtoExtHdr proto then (buf (next + 1)).toNat * 8 + 8 else upperHdrLen proto
  if size < currHdrLen ∨ (isProtoExtHdr proto ∧ size < currHdrLen + 2) ∨ nextHdrLen = 0 ∨
      size < currHdrLen + nextHdrLen then (none, proto)
  else (some next, proto)

/-- The loop of `uipbuf_search_header`. A header has eight bytes at least. -/
def searchFrom (buf : ℕ → UInt8) (size : ℕ) (proto : UInt8) :
    ℕ → Option ℕ × UInt8 → Option ℕ
  | 0, _ => none
  | fuel + 1, (next, nextProto) =>
      if nextProto = proto then next
      else
        match next with
        | none => none
        | some pos =>
            if isProtoExtHdr nextProto then
              searchFrom buf size proto fuel (getNextHeader buf pos (size - pos) false)
            else none

/-- `uipbuf_search_header`. -/
def searchHeader (p : Packet) (proto : UInt8) : Option ℕ :=
  searchFrom p.buf p.len proto (p.len + 1) (getNextHeader p.buf 0 p.len true)

/-- `uipbuf_get_len_field`. -/
def lenField (p : Packet) : ℕ := (p.buf 4).toNat * 256 + (p.buf 5).toNat

/-- `uipbuf_set_len_field`. -/
def setLenField (p : Packet) (len : ℕ) : Packet :=
  { p with buf := store p.buf 4 [.ofNat (len / 256), .ofNat len] }

/-- `uipbuf_add_ext_hdr`, for a header that is added. -/
def addExtHdr (p : Packet) (len : ℕ) : Packet :=
  if len + p.len ≤ linkMtu then { p with len := p.len + len, extLen := p.extLen + len } else p

end Packet

/-- `rpl_is_addr_in_our_dag`. -/
def Stack.isAddrInOurDag (stack : Stack) (addr : Ipaddr) : Bool :=
  stack.sr.dagId.prefixcmp addr prefixLength

/-- `count_matching_bytes`. -/
def countMatchingBytes : List UInt8 → List UInt8 → ℕ
  | a :: as, b :: bs => if a = b then countMatchingBytes as bs + 1 else 0
  | _, _ => 0

/-- A write to `uip_buf`. -/
def put (size : ℕ) (pos : ℤ) (bytes : List UInt8) (buf : ℕ → UInt8) : Option (ℕ → UInt8) :=
  if 0 ≤ pos ∧ pos + bytes.length ≤ size then some (store buf pos.toNat bytes) else none

/-! ## The root -/

/-- The first loop of `insert_srh_header`: `path_len` and `cmpri`. -/
def measurePath (cfg : Config) (s : State) (rootNode : ℕ) (dest : Ipaddr) :
    ℕ → Option ℕ → ℕ → ℕ → Option (ℕ × ℕ)
  | 0, _, _, _ => none
  | _ + 1, none, pathLen, cmpri => some (pathLen, cmpri)
  | fuel + 1, some l, pathLen, cmpri =>
      if l = rootNode then some (pathLen, cmpri)
      else
        measurePath cfg s rootNode dest fuel (s.parent l) ((pathLen + 1) % 256)
          (min cmpri (countMatchingBytes (s.nodeIpaddr cfg l).u8 dest.u8))

/-- `ext_len` before the padding, a `uint8_t`. -/
def fieldsLen (pathLen cmpr : ℕ) : ℕ :=
  ((4 + 4 + ((pathLen : ℤ) - 1) * (16 - cmpr) + (16 - cmpr)) % 256).toNat

/-- `padding`. -/
def padding (extLen : ℕ) : ℕ := if extLen % 8 = 0 then 0 else 8 - extLen % 8

/-- The second loop of `insert_srh_header`, which writes the addresses from the last one on, and
the address that it leaves in `node_addr`. -/
def putHops (stack : Stack) (s : State) (rootNode cmpri : ℕ) :
    ℕ → Option ℕ → ℤ → Ipaddr → (ℕ → UInt8) → Option (Ipaddr × (ℕ → UInt8))
  | 0, _, _, _, _ => none
  | _ + 1, none, _, nodeAddr, buf => some (nodeAddr, buf)
  | fuel + 1, some l, hopPtr, _, buf =>
      let nodeAddr := s.nodeIpaddr stack.sr l
      if s.parent l = some rootNode then some (nodeAddr, buf)
      else
        (put stack.bufSize (hopPtr - (16 - cmpri)) (nodeAddr.u8.drop cmpri) buf).bind
          (putHops stack s rootNode cmpri fuel (s.parent l) (hopPtr - (16 - cmpri)) nodeAddr)

/-- The part of `insert_srh_header` that writes to the packet. -/
def writeSrh (stack : Stack) (s : State) (destNode rootNode pathLen cmpri extLen padding : ℕ)
    (p : Packet) : Option Packet := do
  let buf ← put stack.bufSize (iphLen + p.extLen + extLen)
    (load p.buf (iphLen + p.extLen) (p.len - iphLen)) p.buf
  let buf ← put stack.bufSize (iphLen + p.extLen) (List.replicate extLen 0) buf
  let buf ← put stack.bufSize iphLen
    [buf 6, .ofInt (((extLen : ℤ) - 8).tdiv 8), typeSrh, .ofNat pathLen,
      .ofNat (cmpri * 16 + cmpri), .ofNat (padding * 16)] buf
  let buf ← put stack.bufSize 6 [protoRouting] buf
  let (nodeAddr, buf) ← putHops stack s rootNode cmpri (stack.sr.linkNum + 1) (some destNode)
    (iphLen + extLen - padding) p.destipaddr buf
  let buf ← put stack.bufSize 24 nodeAddr.u8 buf
  let p := Packet.addExtHdr { p with buf := buf } extLen
  return p.setLenField (p.len - iphLen)

/-- `insert_srh_header`. -/
def insertSrhHeader (stack : Stack) (graph : ℕ) (s : State) (p : Packet) :
    Option (Bool × Packet) :=
  let dest := p.destipaddr
  if !stack.isAddrInOurDag dest then some (true, p)
  else
    match s.getNode stack.sr graph (some dest),
      s.getNode stack.sr graph (some stack.sr.dagId) with
    | none, _ => some (true, p)
    | some _, none => some (false, p)
    | some destNode, some rootNode =>
        if !s.isAddrReachable stack.sr graph dest then some (false, p)
        else
          match measurePath stack.sr s rootNode dest (stack.sr.linkNum + 1) (s.parent destNode)
            0 15 with
          | none => none
          | some (pathLen, cmpri) =>
              let fields := fieldsLen pathLen cmpri
              let extLen := (fields + padding fields) % 256
              if linkMtu < p.len + extLen then some (false, p)
              else
                (writeSrh stack s destNode rootNode pathLen cmpri extLen (padding fields) p).map
                  fun p => (true, p)

/-! ## The destinations -/

/-- `rpl_ext_header_srh_update`. -/
def srhUpdate (stack : Stack) (p : Packet) : Bool × Packet :=
  match p.searchHeader protoRouting with
  | none => (false, p)
  | some rh =>
      if p.buf (rh + 2) ≠ typeSrh then (false, p)
      else
        let segmentsLeft := (p.buf (rh + 3)).toNat
        let extLen := ((p.buf (rh + 1)).toNat * 8 + 8) % 256
        let cmpri := (p.buf (rh + 4)).toNat / 16
        let cmpre := (p.buf (rh + 4)).toNat % 16
        let padding := (p.buf (rh + 5)).toNat / 16
        let pathLen := ((((extLen : ℤ) - padding - 4 - 4 - (16 - cmpre)).tdiv (16 - cmpri) + 1) %
          256).toNat
        if segmentsLeft = 0 then (true, p)
        else if pathLen < segmentsLeft then (false, p)
        else
          let i := pathLen - segmentsLeft
          let cmpr := if segmentsLeft = 1 then cmpre else cmpri
          let addrOffset := 4 + 4 + i * (16 - cmpri)
          if stack.bufSize < rh + addrOffset + 16 - cmpr then (false, p)
          else
            let dest := store p.buf (24 + cmpr) (load p.buf (rh + addrOffset) (16 - cmpr))
            let swapped := store dest (rh + addrOffset) (p.destipaddr.u8.drop cmpr)
            (true, { p with buf := store swapped (rh + 3) [.ofNat (segmentsLeft - 1)] })

end Den2ne.SourceRoute
