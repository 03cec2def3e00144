import Den2ne.Reads.Transfer
import Mathlib.Algebra.Order.Ring.Int

/-!
# Uncompressing headers

`uncompress_hdr_iphc` of `sicslowpan.c`, with `uncompress_addr`. It reads `packetbuf` and writes
the buffer of the caller; positions are offsets into these. The bytes of `packetbuf` behind
`packetbuf_datalen` are there as well.

Where the source reads back a byte that it has just copied from `packetbuf`, the byte is read
from `packetbuf` again.
-/

namespace Den2ne.Sicslowpan

open Reads Transfer

/-- `struct sicslowpan_addr_context`. -/
structure AddrContext where
  used : Bool
  number : UInt8
  addrPrefix : Fin 8 → UInt8

/-- What `uncompress_hdr_iphc` works on. `data` is what `packetbuf_ptr` points to. -/
structure Iphc where
  data : ℕ → UInt8
  packetbufDatalen : ℕ
  packetbufHdrLen : ℕ
  uncompHdrLen : ℕ
  bufSize : ℕ
  ipLen : ℕ
  addrContexts : List AddrContext
  senderAddr : List UInt8
  receiverAddr : List UInt8
  /-- The buffers of `input` hold an IPv6 header: `UIP_BUFSIZE` and
  `SICSLOWPAN_FIRST_FRAGMENT_SIZE` bytes. -/
  bufSize_ge : 40 ≤ bufSize

/-- `unc_llconf`. -/
def uncLlconf : List ℕ := [0x0f, 0x28, 0x22, 0x20]

/-- `unc_ctxconf`. -/
def uncCtxconf : List ℕ := [0x00, 0x88, 0x82, 0x80]

/-- `unc_mxconf`. -/
def uncMxconf : List ℕ := [0x0f, 0x25, 0x23, 0x21]

/-- `llprefix`. -/
def llPrefix : List UInt8 := [0xfe, 0x80]

/-- `ttl_values`. -/
def ttlValues : List UInt8 := [0, 1, 64, 255]

/-- The two bytes of a 16-bit value, in network order. -/
def be16 (n : ℤ) : List UInt8 :=
  [UInt8.ofNat ((n % 65536).toNat / 256), UInt8.ofNat ((n % 65536).toNat % 256)]

/-- A nibble of `pref_post_count`; 15 stands for 16. -/
def nibbleCount (n : ℕ) : ℕ := if n = 15 then 16 else n

/-- The bytes of an address that come from its prefix. -/
def prefCount (prefPostCount : ℕ) : ℕ := nibbleCount (prefPostCount / 16)

/-- The bytes of an address that come from the packet. -/
def postCount (prefPostCount : ℕ) : ℕ := nibbleCount (prefPostCount % 16)

/-- `uip_ds6_set_addr_iid`: the second half of an address, for the values of
`UIP_LLADDR_LEN` there are. -/
def uipDs6SetAddrIid : List UInt8 → List UInt8
  | [a, b, c, d, e, f, g, h] => [a ^^^ 0x02, b, c, d, e, f, g, h]
  | [a, b, c, d, e, f] => [a ^^^ 0x02, b, c, 0xff, 0xfe, d, e, f]
  | [a, b] => [0, 0, 0, 0xff, 0xfe, 0, a, b]
  | _ => []

/-- The end of an address: in-line bytes, or the link-layer address. -/
def uncompressPost (ipaddr prefcount postcount : ℕ) (lladdr : List UInt8) (iphcPtr : ℕ) :
    Transfer UInt8 Unit :=
  if 0 < postcount then do
    copy iphcPtr (ipaddr + (16 - postcount)) postcount
    if postcount = 2 ∧ prefcount < 11 then puts (ipaddr + 11) [0xff, 0xfe] else pure ()
  else if 0 < prefcount then puts (ipaddr + 8) (uipDs6SetAddrIid lladdr)
  else pure ()

/-- `uncompress_addr`. The result is `iphc_ptr` afterwards. -/
def uncompressAddr (ipaddr : ℕ) (addrPrefix : List UInt8) (prefPostCount : ℕ)
    (lladdr : List UInt8) (iphcPtr : ℕ) : Transfer UInt8 ℕ := do
  let prefcount := prefCount prefPostCount
  let postcount := postCount prefPostCount
  puts ipaddr (addrPrefix.take prefcount)
  puts (ipaddr + prefcount) (List.replicate (16 - (prefcount + postcount)) 0)
  uncompressPost ipaddr prefcount postcount lladdr iphcPtr
  pure (iphcPtr + postcount)

/-- Where the loop over the extension headers is. The lengths are 8-bit values. -/
structure Cursor where
  iphcPtr : ℕ
  ipPayload : ℕ
  lastNextheader : ℕ
  nhc : Bool
  extHdrLen : ℕ
  uncompHdrLen : ℕ

/-- The protocol of a compressed extension header. -/
def extProto (eid : UInt8) : Option UInt8 :=
  if eid = 0 then some 0
  else if eid = 1 then some 43
  else if eid = 2 then some 44
  else if eid = 3 then some 60
  else none

/-- `SICSLOWPAN_NHC_EXT_HDR`. -/
def IsExtHdr (b : UInt8) : Prop := b &&& 0xf0 = 0xe0

/-- `SICSLOWPAN_NHC_UDP_ID`. -/
def IsUdp (b : UInt8) : Prop := b &&& 0xf8 = 0xf0

instance : DecidablePred IsExtHdr := fun _ => inferInstanceAs (Decidable (_ = _))

instance : DecidablePred IsUdp := fun _ => inferInstanceAs (Decidable (_ = _))

namespace Iphc

variable (p : Iphc)

/-- `addr_context_lookup_by_number`. -/
def addrContextLookupByNumber (number : UInt8) : Option AddrContext :=
  p.addrContexts.find? fun c => c.used ∧ c.number = number

/-- `CHECK_READ_SPACE`. -/
def checkReadSpace (iphcPtr readlen : ℕ) : Transfer UInt8 Unit :=
  require (iphcPtr + readlen ≤ p.packetbufDatalen)

/-- Traffic class and flow label. -/
def trafficClass (iphc0 : UInt8) (iphcPtr : ℕ) : Transfer UInt8 ℕ :=
  if iphc0 &&& 0x10 = 0 then
    if iphc0 &&& 0x08 = 0 then do
      p.checkReadSpace iphcPtr 4
      copy (iphcPtr + 1) 1 3
      let tmp ← get iphcPtr
      put 0 (0x60 ||| ((tmp >>> (2 : UInt8)) &&& 0x0f))
      let tcflow ← get (iphcPtr + 1)
      put 1 (((tmp >>> (2 : UInt8)) &&& 0x30) ||| (tmp <<< (6 : UInt8)) ||| (tcflow &&& 0x0f))
      pure (iphcPtr + 4)
    else do
      put 0 0x60
      p.checkReadSpace iphcPtr 3
      let tmp ← get iphcPtr
      put 1 ((tmp &&& 0x0f) ||| ((tmp >>> (2 : UInt8)) &&& 0x30))
      copy (iphcPtr + 1) 2 2
      pure (iphcPtr + 3)
  else if iphc0 &&& 0x08 = 0 then do
    p.checkReadSpace iphcPtr 1
    let tmp ← get iphcPtr
    put 0 (0x60 ||| ((tmp >>> (2 : UInt8)) &&& 0x0f))
    put 1 (((tmp <<< (6 : UInt8)) &&& 0xc0) ||| ((tmp >>> (2 : UInt8)) &&& 0x30))
    puts 2 [0, 0]
    pure (iphcPtr + 1)
  else do
    puts 0 [0x60, 0, 0, 0]
    pure iphcPtr

/-- Next header. -/
def nextHeader (iphc0 : UInt8) (iphcPtr : ℕ) : Transfer UInt8 ℕ :=
  if iphc0 &&& 0x04 = 0 then do
    p.checkReadSpace iphcPtr 1
    put 6 (← get iphcPtr)
    pure (iphcPtr + 1)
  else pure iphcPtr

/-- Hop limit. -/
def hopLimit (iphc0 : UInt8) (iphcPtr : ℕ) : Transfer UInt8 ℕ :=
  if iphc0 &&& 0x03 ≠ 0 then do
    put 7 (ttlValues.getD (iphc0 &&& 0x03).toNat 0)
    pure iphcPtr
  else do
    p.checkReadSpace iphcPtr 1
    put 7 (← get iphcPtr)
    pure (iphcPtr + 1)

/-- The byte with the context identifiers, if there is one. -/
def contextIds (iphc1 : UInt8) : Transfer UInt8 UInt8 :=
  if iphc1 &&& 0x80 ≠ 0 then get (p.packetbufHdrLen + 2) else pure 0

/-- The source address with the context `sci`, which is not looked up if all of the address is
elided. -/
def srcWithContext (tmp : ℕ) (sci : UInt8) (iphcPtr : ℕ) : Transfer UInt8 ℕ :=
  if tmp ≠ 0 then
    match p.addrContextLookupByNumber sci with
    | none => fail
    | some context => uncompressAddr 8 (List.ofFn context.addrPrefix) (uncCtxconf.getD tmp 0)
        p.senderAddr iphcPtr
  else uncompressAddr 8 [] (uncCtxconf.getD tmp 0) p.senderAddr iphcPtr

/-- Source address. -/
def srcAddr (iphc1 : UInt8) (iphcPtr : ℕ) : Transfer UInt8 ℕ :=
  let tmp := ((iphc1 &&& 0x30) >>> 4 &&& 0x03).toNat
  if iphc1 &&& 0x40 ≠ 0 then do
    let ids ← p.contextIds iphc1
    p.srcWithContext tmp (ids >>> 4) iphcPtr
  else uncompressAddr 8 llPrefix (uncLlconf.getD tmp 0) p.senderAddr iphcPtr

/-- The destination address with the context `dci`. -/
def destWithContext (tmp : ℕ) (dci : UInt8) (iphcPtr : ℕ) : Transfer UInt8 ℕ :=
  match p.addrContextLookupByNumber dci with
  | none => fail
  | some context => uncompressAddr 24 (List.ofFn context.addrPrefix) (uncCtxconf.getD tmp 0)
      p.receiverAddr iphcPtr

/-- A multicast address without a context. -/
def destMulticast (tmp iphcPtr : ℕ) : Transfer UInt8 ℕ :=
  if 0 < tmp ∧ tmp < 3 then do
    p.checkReadSpace iphcPtr 1
    let scope ← get iphcPtr
    uncompressAddr 24 [0xff, scope] (uncMxconf.getD tmp 0) [] (iphcPtr + 1)
  else uncompressAddr 24 [0xff, 0x02] (uncMxconf.getD tmp 0) [] iphcPtr

/-- Destination address. Nothing is done for a multicast address with a context. -/
def destAddr (iphc1 : UInt8) (iphcPtr : ℕ) : Transfer UInt8 ℕ :=
  let tmp := (iphc1 &&& 0x03).toNat
  if iphc1 &&& 0x08 ≠ 0 then
    if iphc1 &&& 0x04 ≠ 0 then pure iphcPtr else p.destMulticast tmp iphcPtr
  else if iphc1 &&& 0x04 ≠ 0 then do
    let ids ← p.contextIds iphc1
    p.destWithContext tmp (ids &&& 0x0f) iphcPtr
  else uncompressAddr 24 llPrefix (uncLlconf.getD tmp 0) p.receiverAddr iphcPtr

/-- The in-line next header of an extension header. -/
def inlineNext (nh : UInt8) (iphcPtr : ℕ) : Transfer UInt8 UInt8 :=
  if nh = 0 then get iphcPtr else pure 0

/-- The rest of a pass of the loop, behind the length byte of the header. -/
def extTail (c : Cursor) (b next : UInt8) (lenPtr : ℕ) (len : UInt8) : Transfer UInt8 Cursor :=
  match extProto ((b &&& 0x0e) >>> 1) with
  | none => fail
  | some proto => do
      put c.lastNextheader proto
      require (c.ipPayload + 2 + len.toNat ≤ p.bufSize)
      let exthdrLen := (2 + len.toNat) / 8
      put (c.ipPayload + 1) (UInt8.ofNat exthdrLen)
      require (exthdrLen ≠ 0)
      put (c.ipPayload + 1) (UInt8.ofNat (exthdrLen - 1))
      put c.ipPayload next
      p.checkReadSpace (lenPtr + 1) (len.toNat + 1)
      copy (lenPtr + 1) (c.ipPayload + 2) len.toNat
      pure {
        iphcPtr := lenPtr + 1 + len.toNat
        ipPayload := c.ipPayload + exthdrLen * 8
        lastNextheader := c.ipPayload
        nhc := b &&& 0x01 ≠ 0
        extHdrLen := (c.extHdrLen + exthdrLen * 8) % 256
        uncompHdrLen := (c.uncompHdrLen + exthdrLen * 8) % 256 }

/-- One pass of the loop over the extension headers. -/
def extHeader (c : Cursor) : Transfer UInt8 Cursor := do
  let b ← get c.iphcPtr
  let nh := b &&& 0x01
  p.checkReadSpace (c.iphcPtr + 1) 1
  let next ← inlineNext nh (c.iphcPtr + 1)
  let iphcPtr := c.iphcPtr + 1 + if nh = 0 then 1 else 0
  p.checkReadSpace iphcPtr 1
  let len ← get iphcPtr
  p.extTail c b next iphcPtr len

/-- The loop over the extension headers. The bound on the number of passes is never reached,
since each one ends before the end of the packet. -/
def extHeaders : ℕ → Cursor → Transfer UInt8 Cursor
  | 0, _ => fail
  | fuel + 1, c =>
      if c.nhc then do
        if IsExtHdr (← get c.iphcPtr) then extHeaders fuel (← p.extHeader c) else pure c
      else pure c

/-- The ports of a UDP header: where they end. -/
def udpPorts (b : UInt8) (iphcPtr udpBuf : ℕ) : Transfer UInt8 ℕ :=
  if b &&& 0xf3 = 0xf0 then do
    p.checkReadSpace iphcPtr 5
    copy (iphcPtr + 1) udpBuf 2
    copy (iphcPtr + 3) (udpBuf + 2) 2
    pure (iphcPtr + 5)
  else if b &&& 0xf3 = 0xf1 then do
    p.checkReadSpace iphcPtr 4
    copy (iphcPtr + 1) udpBuf 2
    puts (udpBuf + 2) [0xf0, ← get (iphcPtr + 3)]
    pure (iphcPtr + 4)
  else if b &&& 0xf3 = 0xf2 then do
    p.checkReadSpace iphcPtr 4
    puts udpBuf [0xf0, ← get (iphcPtr + 1)]
    copy (iphcPtr + 2) (udpBuf + 2) 2
    pure (iphcPtr + 4)
  else if b &&& 0xf3 = 0xf3 then do
    p.checkReadSpace iphcPtr 2
    let ports ← get (iphcPtr + 1)
    puts udpBuf [0xf0, 0xb0 + ports >>> (4 : UInt8), 0xf0, 0xb0 + (ports &&& 0x0f)]
    pure (iphcPtr + 2)
  else fail

/-- The checksum of a UDP header, if it is there: where it ends. -/
def udpChecksum (b : UInt8) (iphcPtr udpBuf : ℕ) : Transfer UInt8 ℕ :=
  if b &&& 0x04 = 0 then do
    p.checkReadSpace iphcPtr 2
    copy iphcPtr (udpBuf + 6) 2
    pure (iphcPtr + 2)
  else pure iphcPtr

/-- A UDP header that begins with `b`. -/
def udpFields (b : UInt8) (c : Cursor) : Transfer UInt8 Cursor := do
  require (c.ipPayload + 8 ≤ p.bufSize)
  put c.lastNextheader 17
  let iphcPtr ← p.udpPorts b c.iphcPtr c.ipPayload
  let iphcPtr ← p.udpChecksum b iphcPtr c.ipPayload
  puts (c.ipPayload + 4) (be16 (if p.ipLen = 0 then 8 + p.packetbufDatalen - iphcPtr
    else p.ipLen - 40 - c.extHdrLen))
  pure { c with
    iphcPtr := iphcPtr
    uncompHdrLen := (c.uncompHdrLen + 8) % 256 }

/-- The UDP header, if there is one. -/
def udpHeader (c : Cursor) : Transfer UInt8 Cursor :=
  if c.nhc then do
    let b ← get c.iphcPtr
    if IsUdp b then p.udpFields b c else pure c
  else pure c

/-- What follows the loop over the extension headers: the UDP header and the length. -/
def lastHeader (c : Cursor) : Transfer UInt8 (ℕ × ℕ) := do
  p.checkReadSpace c.iphcPtr 1
  let c ← p.udpHeader c
  let packetbufHdrLen := c.iphcPtr % 256
  puts 4 (be16 (if p.ipLen = 0 then
    p.packetbufDatalen - packetbufHdrLen + c.uncompHdrLen - 40 else p.ipLen - 40))
  pure (packetbufHdrLen, c.uncompHdrLen)

/-- Where the loop over the extension headers begins. -/
def firstCursor (iphc0 : UInt8) (iphcPtr : ℕ) : Cursor where
  iphcPtr := iphcPtr
  ipPayload := 40
  lastNextheader := 6
  nhc := iphc0 &&& 0x04 ≠ 0
  extHdrLen := 0
  uncompHdrLen := (p.uncompHdrLen + 40) % 256

/-- Everything behind the addresses. -/
def nextHeaders (iphc0 : UInt8) (iphcPtr : ℕ) : Transfer UInt8 (ℕ × ℕ) := do
  p.checkReadSpace iphcPtr 1
  let c ← p.extHeaders p.packetbufDatalen (p.firstCursor iphc0 iphcPtr)
  p.lastHeader c

/-- `uncompress_hdr_iphc`. The result is `packetbuf_hdr_len` and `uncomp_hdr_len` afterwards; the
function returns `false` if there is none. -/
def uncompressHdrIphc : Transfer UInt8 (ℕ × ℕ) := do
  require (p.packetbufHdrLen + 2 ≤ p.packetbufDatalen)
  let iphc0 ← get p.packetbufHdrLen
  let iphc1 ← get (p.packetbufHdrLen + 1)
  let iphcPtr ← p.trafficClass iphc0
    (p.packetbufHdrLen + 2 + if iphc1 &&& 0x80 ≠ 0 then 1 else 0)
  let iphcPtr ← p.nextHeader iphc0 iphcPtr
  let iphcPtr ← p.hopLimit iphc0 iphcPtr
  let iphcPtr ← p.srcAddr iphc1 iphcPtr
  let iphcPtr ← p.destAddr iphc1 iphcPtr
  p.nextHeaders iphc0 iphcPtr

end Iphc

end Den2ne.Sicslowpan
